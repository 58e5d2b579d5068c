import WhereClause.Catalog.Entity
import WhereClause.Expr.Build
import WhereClause.Proofs.Composition
import WhereClause.Proofs.Plan.Resolved

/-!
# What a refused filter leaves behind

Writing a filter stops at the first predicate that is refused. A predicate that is refused writes nothing, so what
stands behind the fragment then are the predicates before it, each of them whole, and the words of the connectives
that have been opened (`refused_filter_leaves`). The step lemmas are `Catalog.convert_joined_eq_some_iff` and
`Catalog.convert_negated_eq_some_iff`; the run over a whole filter is `Catalog.appends_of_convert`.
-/

namespace WhereClause

/-- The single predicates that a filter is put together from, from left to right. -/
def Expr.predicates (e : Expr) : List Expr :=
  match _ : e.shape with
  | .joined _ l r => l.predicates ++ r.predicates
  | .negated x => x.predicates
  | .single => [e]
termination_by sizeOf e
decreasing_by
  · exact (Expr.sizeOf_lt_of_joined ‹_›).1
  · exact (Expr.sizeOf_lt_of_joined ‹_›).2
  · exact Expr.sizeOf_lt_of_negated ‹_›

/-- The predicates of a filter are those of its parts, from left to right. -/
theorem Expr.predicates_of_joined {e l r : Expr} {j : Junctor} (h : e.shape = .joined j l r) :
    e.predicates = l.predicates ++ r.predicates := by
  rw [predicates]
  split <;> simp_all

theorem Expr.predicates_of_negated {e x : Expr} (h : e.shape = .negated x) : e.predicates = x.predicates := by
  rw [predicates]
  split <;> simp_all

theorem Expr.predicates_of_single {e : Expr} (h : e.shape = .single) : e.predicates = [e] := by
  rw [predicates]
  split <;> simp_all

/-- A fragment with single predicates after it, in this order, and words of connectives between them. Each predicate
is there as a whole: the clause that it has at the index where it starts. -/
inductive Catalog.Appends (c : Catalog) (f : Fragment) : List Expr → Fragment → Prop
  | nothing : Appends c f [] f
  | word {es : List Expr} {g : Fragment} {s : String} : s ∈ Plan.words → Appends c f es g → Appends c f es (g.text s)
  | predicate {es : List Expr} {g : Fragment} {x : Expr} {a : Clause} : x.shape = .single →
      c.clauseAt g.dialect g.next x = .ok a → Appends c f es g → Appends c f (es ++ [x]) (g.splice a)

/-! ## One step -/

namespace Catalog

variable {c : Catalog} {e : Expr} {f g : Fragment} {why : Rejection}

/-- A single predicate that is refused writes nothing. -/
theorem eq_of_convert_single (h : e.shape = .single) (hw : c.convert e f = (g, some why)) : g = f := by
  rw [convert, c.plan_of_single h] at hw
  cases hs : c.singlePlan e with
  | error why' =>
    rw [hs] at hw
    exact (congrArg Prod.fst hw).symm
  | ok p =>
    have hp : (p.write f).2 = none := (Plan.write_snd p f).trans (singlePlan_eq_ok_iff.mp hs).refusal?_eq_none
    rw [hs] at hw
    have hn : (p.write f).2 = some why := congrArg Prod.snd hw
    rw [hp] at hn
    cases hn

/-- A joined filter is refused in its left part, or in its right part behind the clause of the left one. -/
theorem convert_joined_eq_some_iff {l r : Expr} {j : Junctor} (h : e.shape = .joined j l r) :
    c.convert e f = (g, some why) ↔
      c.convert l (f.text "(") = (g, some why) ∨
        ∃ a, c.clauseAt f.dialect f.next l = .ok a ∧
          c.convert r (((f.text "(").splice a).text j.word) = (g, some why) := by
  rw [c.convert_of_joined h, Plan.andThen_eq_some_iff]
  refine or_congr_right ⟨?_, ?_⟩
  · rintro ⟨k, hl, hk⟩
    obtain ⟨a, ha, rfl⟩ := convert_eq_none_iff.mp hl
    obtain hr | ⟨_, -, hn⟩ := Plan.andThen_eq_some_iff.mp hk
    · exact ⟨a, ha, hr⟩
    · cases hn
  · rintro ⟨a, ha, hr⟩
    exact ⟨(f.text "(").splice a, convert_eq_none_iff.mpr ⟨a, ha, rfl⟩, Plan.andThen_eq_some_iff.mpr (.inl hr)⟩

/-- A negated filter is refused where its part is. -/
theorem convert_negated_eq_some_iff {x : Expr} (h : e.shape = .negated x) :
    c.convert e f = (g, some why) ↔ c.convert x (f.text "NOT (") = (g, some why) := by
  rw [c.convert_of_negated h, Plan.andThen_eq_some_iff]
  constructor
  · rintro (hx | ⟨_, -, hn⟩)
    · exact hx
    · cases hn
  · exact .inl

/-! ## A whole filter -/

/-- What is appended after something else is appended with it. -/
theorem Appends.trans {es es' : List Expr} {h : Fragment} (h₁ : c.Appends f es g) (h₂ : c.Appends g es' h) :
    c.Appends f (es ++ es') h := by
  induction h₂ with
  | nothing =>
    rw [List.append_nil]
    exact h₁
  | word hs _ ih => exact .word hs ih
  | predicate hx ha _ ih =>
    rw [← List.append_assoc]
    exact .predicate hx ha ih

/-- What is appended stands behind the text and the values that were there. -/
theorem Appends.exists_eq {es : List Expr} (h : c.Appends f es g) :
    ∃ sql args, g = { f with sql := f.sql ++ sql, args := f.args ++ args } := by
  induction h with
  | nothing => exact ⟨"", [], by simp⟩
  | @word _ _ s _ _ ih =>
    obtain ⟨sql, args, rfl⟩ := ih
    exact ⟨sql ++ s, args, by simp [Fragment.text, String.append_assoc]⟩
  | @predicate _ _ _ a _ _ _ ih =>
    obtain ⟨sql, args, rfl⟩ := ih
    exact ⟨sql ++ a.sql, args ++ a.args, by simp [Fragment.splice, String.append_assoc]⟩

/-- A word of the language may come before what is appended. -/
theorem Appends.of_word {s : String} {es : List Expr} (hs : s ∈ Plan.words) (h : c.Appends (f.text s) es g) :
    c.Appends f es g :=
  (Appends.word hs .nothing).trans h

/-- Writing a filter to its end appends all of its predicates. Where it stops, the predicates before the one that is
refused have been appended. -/
theorem appends_of_convert (c : Catalog) (e : Expr) (f g : Fragment) :
    (c.convert e f = (g, none) → c.Appends f e.predicates g) ∧
      ∀ why, c.convert e f = (g, some why) →
        ∃ done x rest, e.predicates = done ++ x :: rest ∧ x.shape = .single ∧ c.convert x g = (g, some why) ∧
          c.Appends f done g := by
  induction e using Expr.shapeInduction generalizing f g with
  | joined e j l r he ihl ihr =>
    have hj : j.word ∈ Plan.words := by cases j <;> simp [Plan.words, Junctor.word]
    have ho : "(" ∈ Plan.words := by simp [Plan.words]
    rw [Expr.predicates_of_joined he]
    refine ⟨fun h => ?_, fun why h => ?_⟩
    · rw [c.convert_of_joined he] at h
      obtain ⟨k, hl, h⟩ := Plan.andThen_eq_none_iff.mp h
      obtain ⟨m, hr, h⟩ := Plan.andThen_eq_none_iff.mp h
      obtain rfl : m.text ")" = g := congrArg Prod.fst h
      have hm := ((ihl _ _).1 hl).trans (((ihr _ _).1 hr).of_word hj)
      exact .word (by simp [Plan.words]) (hm.of_word ho)
    · obtain hl | ⟨a, ha, hr⟩ := (convert_joined_eq_some_iff he).mp h
      · obtain ⟨done, x, rest, hp, hx, hw, had⟩ := (ihl _ _).2 why hl
        exact ⟨done, x, rest ++ r.predicates, by simp [hp], hx, hw, had.of_word ho⟩
      · have hl : c.convert l (f.text "(") = ((f.text "(").splice a, none) := convert_eq_none_iff.mpr ⟨a, ha, rfl⟩
        obtain ⟨done, x, rest, hp, hx, hw, had⟩ := (ihr _ _).2 why hr
        have hd := ((ihl _ _).1 hl).trans (had.of_word hj)
        exact ⟨l.predicates ++ done, x, rest, by simp [hp], hx, hw, hd.of_word ho⟩
  | negated e x he ih =>
    have hn : "NOT (" ∈ Plan.words := by simp [Plan.words]
    rw [Expr.predicates_of_negated he]
    refine ⟨fun h => ?_, fun why h => ?_⟩
    · rw [c.convert_of_negated he] at h
      obtain ⟨k, hx, h⟩ := Plan.andThen_eq_none_iff.mp h
      obtain rfl : k.text ")" = g := congrArg Prod.fst h
      exact .word (by simp [Plan.words]) (((ih _ _).1 hx).of_word hn)
    · obtain ⟨done, y, rest, hp, hy, hw, had⟩ := (ih _ _).2 why ((convert_negated_eq_some_iff he).mp h)
      exact ⟨done, y, rest, hp, hy, hw, had.of_word hn⟩
  | single e he =>
    rw [Expr.predicates_of_single he]
    refine ⟨fun h => ?_, fun why h => ?_⟩
    · obtain ⟨a, ha, rfl⟩ := convert_eq_none_iff.mp h
      exact .predicate he ha .nothing
    · obtain rfl := eq_of_convert_single he h
      exact ⟨[], e, [], rfl, he, h, .nothing⟩

end Catalog

/-- What a filter that is refused leaves behind a fragment. A single predicate leaves nothing. A joined filter leaves
what its left part does behind a parenthesis, if that is refused, and otherwise what its right part does behind the
clause of the left one and the word between them; a negated filter leaves what its part does behind the word. The
reason is always that of the part. So all that was there before still is, and what has been added are the predicates
before the one that is refused, each of them as a whole, and words of connectives. -/
theorem refused_filter_leaves (c : Catalog) (e : Expr) (f g : Fragment) (why : Rejection) :
    (e.shape = .single → c.convert e f = (g, some why) → g = f) ∧
      (∀ j l r, e.shape = .joined j l r →
        (c.convert e f = (g, some why) ↔
          c.convert l (f.text "(") = (g, some why) ∨
            ∃ a, c.clauseAt f.dialect f.next l = .ok a ∧
              c.convert r (((f.text "(").splice a).text j.word) = (g, some why))) ∧
      (∀ x, e.shape = .negated x →
        (c.convert e f = (g, some why) ↔ c.convert x (f.text "NOT (") = (g, some why))) ∧
      (c.convert e f = (g, some why) →
        (∃ sql args, g = { f with sql := f.sql ++ sql, args := f.args ++ args }) ∧
          ∃ done x rest, e.predicates = done ++ x :: rest ∧ x.shape = .single ∧ c.convert x g = (g, some why) ∧
            c.Appends f done g) := by
  refine ⟨Catalog.eq_of_convert_single, fun j l r h => Catalog.convert_joined_eq_some_iff h,
    fun x h => Catalog.convert_negated_eq_some_iff h, fun h => ?_⟩
  obtain ⟨done, x, rest, hp, hx, hw, had⟩ := (c.appends_of_convert e f g).2 why h
  exact ⟨had.exists_eq, done, x, rest, hp, hx, hw, had⟩

/-- Behind `id > 7 AND `, with two values bound before: a list whose second element has the wrong type writes nothing;
and behind a comparison, a negated identifier that is not known leaves the comparison and two words. -/
theorem refused_filter_leaves_memo :
    let f : Fragment := (Fragment.empty .postgres 3).text "id > 7 AND "
    let tags : Expr := .isIn (.ident "tag") (.list [.string "a", .int 1])
    let color : Expr := .not (.ident "color")
    let e : Expr := .and (.eq (.ident "creator_id") (.int 7)) color
    let a : Clause := ⟨"memo.creator_id = $3", [.int 7], 4⟩
    let g : Fragment := { f with sql := "id > 7 AND (memo.creator_id = $3 AND NOT (", args := [.int 7] }
    let why : Rejection := .unknownIdentifier "color"
    (tags.shape = .single ∧
        memoCatalog.convert tags f =
          ((memoCatalog.convert tags f).1, some (.typeMismatch (.field "tag") .string .int)) ∧
        (memoCatalog.convert tags f).1 = f) ∧
      (e.shape = .joined .and (.eq (.ident "creator_id") (.int 7)) color ∧
        memoCatalog.clauseAt .postgres f.next (.eq (.ident "creator_id") (.int 7)) = .ok a ∧
        memoCatalog.convert color (((f.text "(").splice a).text " AND ") = (g, some why) ∧
        memoCatalog.convert e f = (g, some why)) ∧
      (color.shape = .negated (.ident "color") ∧
        memoCatalog.convert (.ident "color") ((((f.text "(").splice a).text " AND ").text "NOT (") = (g, some why)) ∧
      ∃ done x rest, e.predicates = done ++ x :: rest ∧ x.shape = .single ∧
        memoCatalog.convert x g = (g, some why) ∧ memoCatalog.Appends f done g := by
  intro f tags color e a g why
  have htags : memoCatalog.convert tags f =
      ((memoCatalog.convert tags f).1, some (.typeMismatch (.field "tag") .string .int)) :=
    Prod.ext rfl (by decide +kernel)
  have ha : memoCatalog.clauseAt .postgres f.next (.eq (.ident "creator_id") (.int 7)) = .ok a := by
    decide +kernel
  have hcolor : memoCatalog.convert color (((f.text "(").splice a).text " AND ") = (g, some why) := by decide +kernel
  have he : memoCatalog.convert e f = (g, some why) :=
    ((refused_filter_leaves memoCatalog e f g why).2.1 .and _ _ rfl).mpr (.inr ⟨a, ha, hcolor⟩)
  refine ⟨⟨rfl, htags, ?_⟩, ⟨rfl, ha, hcolor, he⟩, ⟨rfl, ?_⟩, ?_⟩
  · exact (refused_filter_leaves memoCatalog tags f _ _).1 rfl htags
  · exact ((refused_filter_leaves memoCatalog color _ g why).2.2.1 (.ident "color") rfl).mp hcolor
  · exact ((refused_filter_leaves memoCatalog e f g why).2.2.2 he).2

end WhereClause
