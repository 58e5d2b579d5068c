import WhereClause.Expr.Build
import WhereClause.Proofs.Arguments
import WhereClause.Proofs.Composition
import WhereClause.Proofs.Condition.Atoms

/-!
# The condition that a filter is written as

The text of a filter is a condition of the filter's own structure (`Catalog.Skeleton`), with the texts of single
predicates as its atoms. It can be read in no other way, and it is read as the same condition wherever it is spliced in
(`skeleton_is_read`).
-/

namespace WhereClause

/-- A predicate that a single predicate of a catalog is resolved to, alone or among others. -/
def Catalog.Tests (c : Catalog) (q : Predicate) : Prop := ∃ e p, c.Resolves e p ∧ q ∈ p.tests

/-- The text of a predicate of a catalog, wherever its placeholders begin. -/
def Catalog.Atom (c : Catalog) (d : Dialect) (t : List Char) : Prop :=
  ∃ q index, c.Tests q ∧ t = (q.text d index).toList

/-- An inequality of a text, which is stored in a column. -/
inductive Catalog.Unlike (c : Catalog) : Expr → Column → Literal → Prop
  | intro {symbol name : String} {receiver : Option Expr} {args : List Expr} {f : Field} {l : Literal} :
      Symbol.ofText? symbol = some (.compare .notEqual) → operands receiver args = [.ident name, .const l] →
      c.lookup? name = some f → f.kind = .text → Unlike c (.call symbol receiver args) f.column l

/-- A search for some constants in an array, which is stored under a path. -/
inductive Catalog.AnyTag (c : Catalog) : Expr → JsonPath → List Literal → Prop
  | intro {symbol name : String} {receiver : Option Expr} {args : List Expr} {f : Field} {path : JsonPath}
      {ls : List Literal} : Symbol.ofText? symbol = some .isIn →
      operands receiver args = [.ident name, .list (ls.map .const)] → c.lookup? name = some f →
      f.kind = .jsonList path → AnyTag c (.call symbol receiver args) path ls

/-- The condition that a filter is, where its placeholders begin at an index. An inequality of a text is a negated
search; a search for two or more constants is one search for each of them; every other single predicate is an atom. -/
inductive Catalog.Skeleton (c : Catalog) (d : Dialect) : UInt64 → Expr → Condition → Prop
  | joined {index : UInt64} {e l r : Expr} {j : Junctor} {a : Clause} {x y : Condition} : e.shape = .joined j l r →
      c.clauseAt d index l = .ok a → Skeleton c d index l x → Skeleton c d a.next r y →
      Skeleton c d index e (.joined j [x, y])
  | negated {index : UInt64} {e e' : Expr} {x : Condition} : e.shape = .negated e' → Skeleton c d index e' x →
      Skeleton c d index e (.negation x)
  | unlike {index : UInt64} {e : Expr} {column : Column} {l : Literal} : c.Unlike e column l →
      Skeleton c d index e (.negation (.atom ((Predicate.like column l.likePattern).text d index).toList))
  | anyTag {index : UInt64} {e : Expr} {path : JsonPath} {ls : List Literal} : c.AnyTag e path ls → 2 ≤ ls.length →
      Skeleton c d index e (.joined .or
        (ls.mapIdx fun i l => .atom ((Predicate.hasTag path l.toValue).text d (index + .ofNat i)).toList))
  | atom {index : UInt64} {e : Expr} {a : Clause} : e.shape = .single → (∀ column l, ¬c.Unlike e column l) →
      (∀ path ls, c.AnyTag e path ls → ls.length < 2) → c.clauseAt d index e = .ok a →
      Skeleton c d index e (.atom a.sql.toList)

/-! ## Single predicates -/

namespace Catalog

variable {c : Catalog} {e : Expr} {p : Plan}

/-- A text that is not to hold a pattern resolves to the negation of the test for it. -/
theorem Unlike.plan_eq {column : Column} {l : Literal} (h : c.Unlike e column l) (hp : c.Resolves e p) :
    p = .negation (.test (.like column l.likePattern)) := by
  obtain ⟨hs, ho, hf, hk⟩ := h
  cases hp with
  | comparison hs' ho' hf' _ hc =>
    cases hs.symm.trans hs'
    cases ho.symm.trans ho'
    cases hf.symm.trans hf'
    cases hc with
    | instant hk' => cases hk.symm.trans hk'
    | checked => simp only [Field.checkedComparison, hk]
  | size _ ho' => cases ho.symm.trans ho'
  | oneOf hs' => cases hs.symm.trans hs'
  | anyTag hs' => cases hs.symm.trans hs'
  | element hs' => cases hs.symm.trans hs'
  | contains hs' => cases hs.symm.trans hs'

/-- The operands of a search in a list determine what is searched for and where. -/
theorem list_operands_inj {name name' : String} {ls ls' : List Literal}
    (h : [Expr.ident name, .list (ls.map .const)] = [.ident name', .list (ls'.map .const)]) :
    name = name' ∧ ls = ls' := by
  have hconst : Function.Injective Expr.const := fun l l' h => Expr.const.inj h
  simp only [List.cons.injEq, Expr.ident.injEq, Expr.list.injEq, and_true] at h
  exact ⟨h.1, List.map_injective_iff.mpr hconst h.2⟩

/-- A search for any of some tags resolves to a test for each of them. -/
theorem AnyTag.plan_eq {path : JsonPath} {ls : List Literal} (h : c.AnyTag e path ls) (hp : c.Resolves e p) :
    p = .anyOf (ls.map fun l => .hasTag path l.toValue) ∧ ls ≠ [] := by
  obtain ⟨hs, ho, hf, hk⟩ := h
  cases hp with
  | anyTag hs' ho' hf' _ hne _ hk' =>
    obtain ⟨rfl, rfl⟩ := list_operands_inj (ho.symm.trans ho')
    cases hf.symm.trans hf'
    cases hk.symm.trans hk'
    exact ⟨rfl, hne⟩
  | oneOf hs' ho' hf' _ _ _ hk' =>
    obtain ⟨rfl, rfl⟩ := list_operands_inj (ho.symm.trans ho')
    cases hf.symm.trans hf'
    exact absurd hk (hk' path)
  | element _ ho' => cases ho.symm.trans ho'
  | comparison hs' => cases hs.symm.trans hs'
  | size hs' => cases hs.symm.trans hs'
  | contains hs' => cases hs.symm.trans hs'

/-- A single predicate is an inequality of a text, a search for some constants, or one test. -/
theorem Resolves.cases_plan (h : c.Resolves e p) :
    (∃ q, p = .test q) ∨ (∃ column l, c.Unlike e column l) ∨ ∃ path ls, c.AnyTag e path ls := by
  cases h with
  | comparison hs ho hf _ hc =>
    cases hc with
    | instant => exact Or.inl ⟨_, rfl⟩
    | checked =>
      unfold Field.checkedComparison
      split
      · exact Or.inl ⟨_, rfl⟩
      next hk _ => exact Or.inr (Or.inl ⟨_, _, hs, ho, hf, hk⟩)
      · exact Or.inl ⟨_, rfl⟩
      · exact Or.inl ⟨_, rfl⟩
  | anyTag hs ho hf _ _ _ hk => exact Or.inr (Or.inr ⟨_, _, hs, ho, hf, hk⟩)
  | _ => exact Or.inl ⟨_, rfl⟩

/-- Every test of a catalog reads from one of its fields. -/
theorem Tests.readsFrom {q : Predicate} (h : c.Tests q) : ∃ name f, c.lookup? name = some f ∧ q.ReadsFrom f := by
  obtain ⟨e, p, hp, hq⟩ := h
  exact Plan.all_iff.mp hp.all_readsFrom q hq

end Catalog

/-! ## Texts -/

section

variable {c : Catalog} {d : Dialect} {index : UInt64} {e : Expr} {p : Plan} {a : Clause}

/-- The clause of a single predicate is that of its plan. -/
theorem Catalog.Resolves.clause_eq (hp : c.Resolves e p) (h : c.clauseAt d index e = .ok a) :
    a = p.clause d index := by
  obtain ⟨-, rfl⟩ := clauseAt_eq_ok_iff.mp h
  rw [hp.plan_eq]

/-- An inequality of a text is written as a negated search. -/
theorem Catalog.Unlike.formed_and_text {column : Column} {l : Literal} (hu : c.Unlike e column l)
    (hp : c.Resolves e p) (h : c.clauseAt d index e = .ok a) :
    let x : Condition := .negation (.atom ((Predicate.like column l.likePattern).text d index).toList)
    x.Formed (c.Atom d) ∧ x.text = a.sql.toList := by
  obtain rfl := hu.plan_eq hp
  obtain rfl := hp.clause_eq h
  have hq : c.Tests (.like column l.likePattern) := ⟨e, _, hp, by simp [Plan.tests]⟩
  refine ⟨.negation (.atom ⟨_, index, hq, rfl⟩), ?_⟩
  simp [Condition.text, Condition.negationWord, Plan.clause, Plan.text]

/-- A search for two or more constants is written as a search for each of them, in parentheses. -/
theorem Catalog.AnyTag.formed_and_text {path : JsonPath} {ls : List Literal} (ha : c.AnyTag e path ls)
    (hl : 2 ≤ ls.length) (hp : c.Resolves e p) (h : c.clauseAt d index e = .ok a) :
    let x : Condition := .joined .or
      (ls.mapIdx fun i l => .atom ((Predicate.hasTag path l.toValue).text d (index + .ofNat i)).toList)
    x.Formed (c.Atom d) ∧ x.text = a.sql.toList := by
  obtain ⟨rfl, -⟩ := ha.plan_eq hp
  obtain rfl := hp.clause_eq h
  let tag (i : Nat) (l : Literal) : String := (Predicate.hasTag path l.toValue).text d (index + .ofNat i)
  have hw : (Plan.anyOf (ls.map fun l => .hasTag path l.toValue)).text d index =
      "(" ++ " OR ".intercalate (ls.mapIdx tag) ++ ")" := by
    have hl' : (ls.map fun l => Predicate.hasTag path l.toValue).length > 1 := by
      rw [List.length_map]
      exact hl
    have hm : (ls.map fun l => Predicate.hasTag path l.toValue).mapIdx (fun i q => q.text d (index + .ofNat i)) =
        ls.mapIdx tag := List.ext_getElem? fun i => by simp [tag, Function.comp_def]
    rw [Plan.text, if_pos hl', Predicate.textAny_eq d index (by simp [Predicate.values]), hm]
  refine ⟨.either (by simpa using hl) fun x hx => ?_, ?_⟩
  · obtain ⟨i, hi, rfl⟩ := List.mem_mapIdx.mp hx
    exact .atom ⟨_, _, ⟨e, _, hp, List.mem_map.mpr ⟨ls[i], List.getElem_mem hi, rfl⟩⟩, rfl⟩
  · have hm : (ls.mapIdx fun i l => Condition.atom (tag i l).toList).map Condition.text =
        (ls.mapIdx tag).map String.toList := List.ext_getElem? fun i => by simp [Condition.text, Function.comp_def]
    rw [Plan.clause, hw, Condition.text, Condition.texts_eq_map, hm]
    simp [Junctor.chars, Junctor.word]

/-- Any other single predicate is written as one test. -/
theorem Catalog.Resolves.atom_sql (hp : c.Resolves e p) (hu : ∀ column l, ¬c.Unlike e column l)
    (ht : ∀ path ls, c.AnyTag e path ls → ls.length < 2) (h : c.clauseAt d index e = .ok a) :
    c.Atom d a.sql.toList := by
  have single (q : Predicate) (hq : q ∈ p.tests) (hw : p.text d index = q.text d index) : c.Atom d a.sql.toList :=
    ⟨q, index, ⟨e, p, hp, hq⟩, by rw [hp.clause_eq h, Plan.clause, hw]⟩
  rcases hp.cases_plan with ⟨q, rfl⟩ | ⟨column, l, hu'⟩ | ⟨path, ls, ha⟩
  · exact single q (List.mem_singleton_self q) rfl
  · exact absurd hu' (hu column l)
  · obtain ⟨rfl, hne⟩ := ha.plan_eq hp
    obtain ⟨l, rfl⟩ : ∃ l, ls = [l] := by
      have := ht path ls ha
      have := List.length_pos_of_ne_nil hne
      exact List.length_eq_one_iff.mp (by omega)
    exact single (.hasTag path l.toValue) (List.mem_singleton_self _) rfl

/-- A single predicate that has a clause is written as the condition it is. -/
theorem Catalog.skeleton_of_single (he : e.shape = .single) (h : c.clauseAt d index e = .ok a) :
    ∃ x, c.Skeleton d index e x ∧ x.Formed (c.Atom d) ∧ x.text = a.sql.toList := by
  obtain ⟨p, hp⟩ := (refusal?_plan_of_single he).mp (clauseAt_eq_ok_iff.mp h).1
  by_cases hu : ∃ column l, c.Unlike e column l
  · obtain ⟨column, l, hu⟩ := hu
    exact ⟨_, .unlike hu, hu.formed_and_text hp h⟩
  by_cases ht : ∃ path ls, c.AnyTag e path ls ∧ 2 ≤ ls.length
  · obtain ⟨path, ls, ht, hl⟩ := ht
    exact ⟨_, .anyTag ht hl, ht.formed_and_text hl hp h⟩
  · have hu : ∀ column l, ¬c.Unlike e column l := by
      intro column l hc
      exact hu ⟨column, l, hc⟩
    have ht : ∀ path ls, c.AnyTag e path ls → ls.length < 2 := by
      intro path ls ha
      by_contra hl
      exact ht ⟨path, ls, ha, by omega⟩
    exact ⟨_, .atom he hu ht h, .atom (hp.atom_sql hu ht h), rfl⟩

end

/-! ## Filters -/

/-- Two formed conditions are formed when they are joined. -/
theorem Condition.Formed.joined {Atom : List Char → Prop} (j : Junctor) {x y : Condition} (hx : x.Formed Atom)
    (hy : y.Formed Atom) : (Condition.joined j [x, y]).Formed Atom := by
  cases j with
  | and => exact .both hx hy
  | or => exact .either (by simp) (by simp [hx, hy])

/-- A filter that has a clause is written as the condition it is. -/
theorem Catalog.skeleton_of_clauseAt {c : Catalog} {d : Dialect} {index : UInt64} {e : Expr} {a : Clause}
    (h : c.clauseAt d index e = .ok a) :
    ∃ x, c.Skeleton d index e x ∧ x.Formed (c.Atom d) ∧ x.text = a.sql.toList := by
  induction e using Expr.shapeInduction generalizing index a with
  | joined e j l r he ihl ihr =>
    rw [c.clauseAt_of_joined d index he] at h
    obtain ⟨b, hl, h⟩ := bind_eq_ok_iff.mp h
    obtain ⟨b', hr, h⟩ := bind_eq_ok_iff.mp h
    obtain ⟨x, hx, hfx, htx⟩ := ihl hl
    obtain ⟨y, hy, hfy, hty⟩ := ihr hr
    refine ⟨.joined j [x, y], .joined he hl hx hy, hfx.joined j hfy, ?_⟩
    rw [← Except.ok.inj h]
    simp [Condition.text, Condition.texts, htx, hty, Junctor.chars]
  | negated e e' he ih =>
    rw [c.clauseAt_of_negated d index he] at h
    obtain ⟨b, hb, h⟩ := bind_eq_ok_iff.mp h
    obtain ⟨x, hx, hfx, htx⟩ := ih hb
    refine ⟨.negation x, .negated he hx, .negation hfx, ?_⟩
    rw [← Except.ok.inj h]
    simp [Condition.text, Condition.negationWord, htx]
  | single e he => exact skeleton_of_single he h

/-- The texts of an entity's predicates are atoms that cannot be mistaken for anything else. -/
theorem Entity.atomic_of_atom (e : Entity) {d : Dialect} {t : List Char} (h : e.catalog.Atom d t) : Atomic t := by
  obtain ⟨q, index, hq, rfl⟩ := h
  obtain ⟨name, f, hf, hr⟩ := hq.readsFrom
  exact Predicate.atomic_text d index (e.plain_catalog name f hf) (e.bare_of_lookup? hf) hr

/-- The text of a filter over the catalog of an entity is a condition of the filter's own structure, with the texts of
single predicates as its atoms, and of no other such condition. Its parentheses match, and no word stands outside of
them. So it is read as that condition, and also where it is spliced in behind `AND` or before `OR`. -/
theorem skeleton_is_read (entity : Entity) (d : Dialect) (start : UInt64) (e : Expr) (clause : Clause)
    (h : Compiler.compile ⟨entity.catalog, d, start⟩ e = .ok clause) :
    ∃ x, entity.catalog.Skeleton d (max start 1) e x ∧ x.Formed (entity.catalog.Atom d) ∧
      x.text = clause.sql.toList ∧
      (∀ y, y.Formed (entity.catalog.Atom d) → y.text = clause.sql.toList → y = x) ∧
      Closed clause.sql.toList ∧ Condition.read clause.sql.toList = x ∧
      ∀ rows ts, ts ≠ [] → (∀ us ∈ rows, us ≠ []) → (∀ us ∈ ts :: rows, ∀ u ∈ us, Closed u) →
        Condition.read (Condition.sum (rows ++ [ts]) ++ " AND ".toList ++ clause.sql.toList) =
            .join .or (rows.map .row ++ [.joined .and (ts.map .read ++ [x])]) ∧
          Condition.read (clause.sql.toList ++ " OR ".toList ++ Condition.sum (ts :: rows)) =
            .joined .or (x :: (ts :: rows).map .row) := by
  have hA : ∀ t, entity.catalog.Atom d t → Atomic t := fun t => entity.atomic_of_atom
  rw [Compiler.compile_eq_clauseAt] at h
  obtain ⟨x, hs, hf, ht⟩ := Catalog.skeleton_of_clauseAt h
  have hc : Closed clause.sql.toList := ht ▸ hf.closed_text hA
  have hr : Condition.read clause.sql.toList = x := ht ▸ hf.read_text hA
  refine ⟨x, hs, hf, ht, fun y hy hty => ?_, hc, hr, fun rows ts hne hrows hcl => ⟨?_, ?_⟩⟩
  · rw [← hr, ← hty, hy.read_text hA]
  · exact hr ▸ Condition.read_sum_and hc hne hrows hcl
  · exact hr ▸ Condition.read_or_sum hc hne hrows hcl

/-- A flag in a document, an inequality of a text and a search for two tags, behind `n = 1 OR m = 2 AND `. -/
theorem skeleton_is_read_memo :
    let unlike : Expr := .compare (.ident "content") .notEqual (.string "a")
    let tags : Expr := .isIn (.ident "tag") (.list [.string "x", .string "y"])
    let e : Expr := .and (.ident "has_code") (.or unlike tags)
    let flag := "(memo.payload->'property'->>'hasCode')::boolean IS TRUE"
    let like := "memo.content ILIKE $4"
    let tag5 := "memo.payload->'tags' @> jsonb_build_array($5)"
    let tag6 := "memo.payload->'tags' @> jsonb_build_array($6)"
    let clause : Clause :=
      ⟨"(" ++ flag ++ " AND (NOT (" ++ like ++ ") OR (" ++ tag5 ++ " OR " ++ tag6 ++ ")))",
        [.string "%a%", .string "x", .string "y"], 7⟩
    let x : Condition := .joined .and [.atom flag.toList, .joined .or
      [.negation (.atom like.toList), .joined .or [.atom tag5.toList, .atom tag6.toList]]]
    Compiler.compile ⟨memoCatalog, .postgres, 4⟩ e = .ok clause ∧ memoCatalog.Skeleton .postgres 4 e x ∧
      Condition.read clause.sql.toList = x ∧
      Condition.read ("n = 1 OR m = 2 AND ".toList ++ clause.sql.toList) =
        .joined .or [.read "n = 1".toList, .joined .and [.read "m = 2".toList, x]] := by
  intro unlike tags e flag like tag5 tag6 clause x
  have h : Compiler.compile ⟨memoCatalog, .postgres, 4⟩ e = .ok clause := by decide +kernel
  obtain ⟨y, hs, -, -, unique, -, hr, spliced⟩ := skeleton_is_read .memo .postgres 4 e clause h
  have atom {t : String} (e : Expr) (p : Plan) (q : Predicate) (index : UInt64) (he : memoCatalog.singlePlan e = .ok p)
      (hq : q ∈ p.tests) (ht : q.text .postgres index = t) : memoCatalog.Atom .postgres t.toList :=
    ⟨q, index, ⟨e, p, Catalog.singlePlan_eq_ok_iff.mp he, hq⟩, by rw [ht]⟩
  let path (keys : List String) : JsonPath := ⟨⟨"memo", "payload"⟩, keys⟩
  let hasCode : Predicate := .jsonIsTrue (path ["property", "hasCode"])
  let search : Predicate := .like ⟨"memo", "content"⟩ "%a%"
  let hasX : Predicate := .hasTag (path ["tags"]) (.string "x")
  let hasY : Predicate := .hasTag (path ["tags"]) (.string "y")
  have hflag := atom (.ident "has_code") (.test hasCode) hasCode 4 (t := flag) (by decide +kernel) (by decide +kernel)
    (by decide +kernel)
  have hlike := atom unlike (.negation (.test search)) search 4 (t := like) (by decide +kernel) (by decide +kernel)
    (by decide +kernel)
  have htag5 := atom tags (.anyOf [hasX, hasY]) hasX 5 (t := tag5) (by decide +kernel) (by decide +kernel)
    (by decide +kernel)
  have htag6 := atom tags (.anyOf [hasX, hasY]) hasY 6 (t := tag6) (by decide +kernel) (by decide +kernel)
    (by decide +kernel)
  have hx : x.Formed (memoCatalog.Atom .postgres) :=
    .both (.atom hflag) (.joined .or (.negation (.atom hlike)) (.joined .or (.atom htag5) (.atom htag6)))
  have ht : x.text = clause.sql.toList := by
    simp [x, clause, Condition.text, Condition.texts, Condition.negationWord, Junctor.chars, Junctor.word]
  obtain rfl : x = y := unique x hx ht
  refine ⟨h, hs, hr, ?_⟩
  have hm : Closed "m = 2".toList := Balanced.closed (by decide +kernel) (by decide +kernel)
  have hn : Closed "n = 1".toList := Balanced.closed (by decide +kernel) (by decide +kernel)
  have hcl : ∀ us ∈ [["m = 2".toList], ["n = 1".toList]], ∀ u ∈ us, Closed u := by
    simp only [List.forall_mem_cons, List.not_mem_nil, false_implies, implies_true, and_true]
    exact ⟨hm, hn⟩
  have hsum : "n = 1 OR m = 2 AND ".toList =
      Condition.sum ([["n = 1".toList]] ++ [["m = 2".toList]]) ++ " AND ".toList := by decide +kernel
  rw [hsum]
  exact (spliced [["n = 1".toList]] ["m = 2".toList] (by simp) (by simp) hcl).1

end WhereClause
