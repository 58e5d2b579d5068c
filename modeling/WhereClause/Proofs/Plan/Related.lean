import Mathlib.Data.List.Forall2
import WhereClause.Compiler
import WhereClause.Proofs.Expr.Shape

/-!
# Writing two plans side by side

Most of what is said about the text of a filter compares two runs of the writer: the same plan on two fragments, or
two plans that differ in the values they bind. `Plan.Related S` says that two plans are built alike from predicates
that are pairwise in `S`, and `Plan.Related.write` says once and for all that a relation between fragments which
single words and predicates keep is kept by whole plans, also where writing stops at a refusal. What a single run
keeps is the case of a plan beside itself (`Plan.All.related`).
-/

namespace WhereClause

/-- What binding related values keeps, and writing a comma, binding lists of them keeps. -/
theorem Fragment.bindAll_related {S : Value → Value → Prop} {R : Fragment → Fragment → Prop}
    (bind : ∀ {v w}, S v w → ∀ {f g : Fragment}, R f g → R (f.bind v) (g.bind w))
    (comma : ∀ {f g : Fragment}, R f g → R (f.text ",") (g.text ",")) {vs ws : List Value} (h : List.Forall₂ S vs ws)
    {f g : Fragment} (hfg : R f g) : R (f.bindAll vs) (g.bindAll ws) := by
  induction h generalizing f g with
  | nil => exact hfg
  | @cons v w vs ws hvw hs ih =>
    cases hs with
    | nil => exact bind hvw hfg
    | cons => exact ih (comma (bind hvw hfg))

namespace Plan

/-! ## Refusals -/

/-- The refusal that writing stops at: the first one from left to right. -/
def refusal? : Plan → Option Rejection
  | .test _ | .anyOf _ => none
  | .negation p => p.refusal?
  | .both l r | .either l r => l.refusal?.or r.refusal?
  | .refused why => some why

/-- A joined plan is refused for its left part first. -/
@[simp] theorem refusal?_plan (j : Junctor) (l r : Plan) : (j.plan l r).refusal? = l.refusal?.or r.refusal? := by
  cases j <;> rfl

/-- Goes on writing, unless writing has stopped. -/
def andThen (w : Fragment × Option Rejection) (k : Fragment → Fragment × Option Rejection) :
    Fragment × Option Rejection :=
  match w with
  | (g, none) => k g
  | stopped => stopped

@[simp] theorem andThen_none (g : Fragment) (k : Fragment → Fragment × Option Rejection) : andThen (g, none) k = k g :=
  rfl

@[simp] theorem andThen_some (g : Fragment) (why : Rejection) (k : Fragment → Fragment × Option Rejection) :
    andThen (g, some why) k = (g, some why) :=
  rfl

/-- Writing ends as its first step does if that stops, and otherwise as what follows does. -/
theorem andThen_eq_some_iff {w : Fragment × Option Rejection} {k : Fragment → Fragment × Option Rejection}
    {g : Fragment} {why : Rejection} :
    andThen w k = (g, some why) ↔ w = (g, some why) ∨ ∃ h, w = (h, none) ∧ k h = (g, some why) := by
  obtain ⟨h, _ | why'⟩ := w <;> simp

/-- Two steps are complete exactly if both are. -/
theorem andThen_eq_none_iff {w : Fragment × Option Rejection} {k : Fragment → Fragment × Option Rejection}
    {g : Fragment} : andThen w k = (g, none) ↔ ∃ h, w = (h, none) ∧ k h = (g, none) := by
  obtain ⟨h, _ | why'⟩ := w <;> simp

/-- A negation is written around its part. -/
theorem write_negation (f : Fragment) (p : Plan) :
    (negation p).write f = andThen (p.write (f.text "NOT (")) fun g => (g.text ")", none) :=
  rfl

/-- A joined plan is written in parentheses, with the word between its parts. -/
theorem write_plan (f : Fragment) (j : Junctor) (l r : Plan) :
    (j.plan l r).write f = andThen (l.write (f.text "(")) fun g =>
      andThen (r.write (g.text j.word)) fun h => (h.text ")", none) := by
  cases j <;> rfl

/-- Whether and why writing stops depends on the plan alone. -/
theorem write_snd (p : Plan) (f : Fragment) : (p.write f).2 = p.refusal? := by
  have joined (j : Junctor) (l r : Plan) (ihl : ∀ f, (l.write f).2 = l.refusal?) (ihr : ∀ f, (r.write f).2 = r.refusal?)
      (f : Fragment) : ((j.plan l r).write f).2 = l.refusal?.or r.refusal? := by
    rw [write_plan, ← ihl (f.text "(")]
    rcases l.write (f.text "(") with ⟨g, _ | why⟩
    · rw [andThen_none, ← ihr (g.text j.word)]
      rcases r.write (g.text j.word) with ⟨h, _ | why⟩ <;> rfl
    · rfl
  induction p generalizing f with
  | test p => rfl
  | anyOf ps => rfl
  | negation p ih =>
    rw [write_negation, refusal?, ← ih (f.text "NOT (")]
    rcases p.write (f.text "NOT (") with ⟨g, _ | why⟩ <;> rfl
  | both l r ihl ihr => exact joined .and l r ihl ihr f
  | either l r ihl ihr => exact joined .or l r ihl ihr f
  | refused why => rfl

/-! ## Plans built alike -/

/-- Two plans are built alike, and their predicates are pairwise related. -/
inductive Related (S : Predicate → Predicate → Prop) : Plan → Plan → Prop
  | test {p q : Predicate} : S p q → Related S (.test p) (.test q)
  | anyOf {ps qs : List Predicate} : List.Forall₂ S ps qs → Related S (.anyOf ps) (.anyOf qs)
  | negation {p q : Plan} : Related S p q → Related S (.negation p) (.negation q)
  | joined (j : Junctor) {l r l' r' : Plan} : Related S l l' → Related S r r' → Related S (j.plan l r) (j.plan l' r')
  | refused (why : Rejection) : Related S (.refused why) (.refused why)

/-- The words that plans are written with. -/
def words : List String := ["(", ")", "NOT (", " AND ", " OR "]

/-- A relation between fragments that appending a word to both keeps, and appending related predicates. -/
structure Kept (S : Predicate → Predicate → Prop) (R : Fragment → Fragment → Prop) : Prop where
  text : ∀ s ∈ words, ∀ {f g}, R f g → R (f.text s) (g.text s)
  write : ∀ {p q}, S p q → ∀ {f g}, R f g → R (p.write f) (q.write g)

variable {S : Predicate → Predicate → Prop} {R : Fragment → Fragment → Prop}

/-- The predicates of a disjunction are kept if each of them is. -/
theorem Kept.writeAny (k : Kept S R) {ps qs : List Predicate} (h : List.Forall₂ S ps qs) {f g : Fragment}
    (hfg : R f g) : R (Predicate.writeAny f ps) (Predicate.writeAny g qs) := by
  induction h generalizing f g with
  | nil => exact hfg
  | @cons p q ps qs hpq hs ih =>
    cases hs with
    | nil => exact k.write hpq hfg
    | cons => exact ih (k.text " OR " (by simp [words]) (k.write hpq hfg))

/-- Two writings that stop together and leave related fragments still do after the same continuation. -/
theorem andThen_related {v w : Fragment × Option Rejection} {k l : Fragment → Fragment × Option Rejection}
    (h : R v.1 w.1 ∧ v.2 = w.2) (hkl : ∀ f g, R f g → R (k f).1 (l g).1 ∧ (k f).2 = (l g).2) :
    R (andThen v k).1 (andThen w l).1 ∧ (andThen v k).2 = (andThen w l).2 := by
  obtain ⟨f, _ | why⟩ := v <;> obtain ⟨g, _ | why'⟩ := w <;> obtain ⟨hR, he⟩ := h
  · exact hkl f g hR
  · cases he
  · cases he
  · exact ⟨hR, he⟩

/-- What words and related predicates keep, plans that are built alike keep, and they are refused alike. -/
theorem Related.write (k : Kept S R) {p q : Plan} (h : Related S p q) {f g : Fragment} (hfg : R f g) :
    R (p.write f).1 (q.write g).1 ∧ (p.write f).2 = (q.write g).2 := by
  induction h generalizing f g with
  | test hpq => exact ⟨k.write hpq hfg, rfl⟩
  | @anyOf ps qs hs =>
    have hl : ps.length = qs.length := hs.length_eq
    refine ⟨?_, rfl⟩
    simp only [Plan.write, hl]
    split
    · exact k.text ")" (by simp [words]) (k.writeAny hs (k.text "(" (by simp [words]) hfg))
    · exact k.writeAny hs hfg
  | negation _ ih =>
    rw [write_negation, write_negation]
    refine andThen_related (ih (k.text "NOT (" (by simp [words]) hfg)) fun f g hfg => ⟨?_, rfl⟩
    exact k.text ")" (by simp [words]) hfg
  | joined j _ _ ihl ihr =>
    have hj : j.word ∈ words := by cases j <;> simp [words, Junctor.word]
    rw [write_plan, write_plan]
    refine andThen_related (ihl (k.text "(" (by simp [words]) hfg)) fun f g hfg => ?_
    refine andThen_related (ihr (k.text j.word hj hfg)) fun f g hfg => ⟨?_, rfl⟩
    exact k.text ")" (by simp [words]) hfg
  | refused why => exact ⟨hfg, rfl⟩

/-- Plans that are built alike are refused alike. -/
theorem Related.refusal?_eq {p q : Plan} (h : Related S p q) : p.refusal? = q.refusal? := by
  have k : Kept S fun _ _ => True := ⟨fun _ _ _ _ _ => trivial, fun _ _ _ _ => trivial⟩
  have := (h.write k (f := .empty .mySql 1) (g := .empty .mySql 1) trivial).2
  rwa [write_snd, write_snd] at this

/-! ## A plan beside itself -/

/-- Every predicate of a plan has a property. -/
def All (P : Predicate → Prop) : Plan → Prop
  | .test p => P p
  | .anyOf ps => ∀ p ∈ ps, P p
  | .negation p => p.All P
  | .both l r | .either l r => l.All P ∧ r.All P
  | .refused _ => True

/-- What holds of all predicates of a joined plan holds of those of its parts. -/
theorem all_plan {P : Predicate → Prop} (j : Junctor) (l r : Plan) : (j.plan l r).All P ↔ l.All P ∧ r.All P := by
  cases j <;> rfl

theorem All.imp {P Q : Predicate → Prop} {p : Plan} (hp : p.All P) (h : ∀ q, P q → Q q) : p.All Q := by
  induction p with
  | test p => exact h p hp
  | anyOf ps => exact fun p hps => h p (hp p hps)
  | negation p ih => exact ih hp
  | both l r ihl ihr => exact ⟨ihl hp.1, ihr hp.2⟩
  | either l r ihl ihr => exact ⟨ihl hp.1, ihr hp.2⟩
  | refused why => trivial

/-- What holds of every predicate holds of those of a plan. -/
theorem all_of_forall {P : Predicate → Prop} (h : ∀ p, P p) (p : Plan) : p.All P := by
  induction p with
  | test p => exact h p
  | anyOf ps => exact fun p _ => h p
  | negation p ih => exact ih
  | both l r ihl ihr => exact ⟨ihl, ihr⟩
  | either l r ihl ihr => exact ⟨ihl, ihr⟩
  | refused why => trivial

/-- The predicates of a plan, from left to right. -/
def tests : Plan → List Predicate
  | .test p => [p]
  | .anyOf ps => ps
  | .negation p => p.tests
  | .both l r | .either l r => l.tests ++ r.tests
  | .refused _ => []

/-- The predicates of a plan are its tests. -/
theorem all_iff {P : Predicate → Prop} {p : Plan} : p.All P ↔ ∀ q ∈ p.tests, P q := by
  induction p with
  | test p => simp [All, tests]
  | anyOf ps => rfl
  | negation p ih => exact ih
  | both l r ihl ihr => simp [All, tests, ihl, ihr, or_imp, forall_and]
  | either l r ihl ihr => simp [All, tests, ihl, ihr, or_imp, forall_and]
  | refused why => simp [All, tests]

/-- A plan whose predicates are related to themselves is built like itself. -/
theorem All.related {p : Plan} (h : p.All fun q => S q q) : p.Related S p := by
  induction p with
  | test p => exact .test h
  | anyOf ps => exact .anyOf (List.forall₂_same.mpr h)
  | negation p ih => exact .negation (ih h)
  | both l r ihl ihr => exact .joined .and (ihl h.1) (ihr h.2)
  | either l r ihl ihr => exact .joined .or (ihl h.1) (ihr h.2)
  | refused why => exact .refused why

theorem Related.refl (h : ∀ q, S q q) (p : Plan) : p.Related S p := (all_of_forall h p).related

end Plan

/-! ## The outcome of compiling -/

/-- The clause that a fragment ends as. -/
def Fragment.clause (f : Fragment) : Clause := ⟨f.sql, f.args, f.next⟩

/-- A filter is refused for the first refusal in its plan; otherwise its clause is what the plan writes. -/
theorem Compiler.compile_eq (c : Compiler) (e : Expr) :
    c.compile e = match (c.catalog.plan e).refusal? with
      | none => .ok ((c.catalog.plan e).write (.empty c.dialect c.start)).1.clause
      | some why => .error why := by
  rw [← Plan.write_snd _ (.empty c.dialect c.start)]
  unfold Compiler.compile Catalog.convert
  rcases (c.catalog.plan e).write (.empty c.dialect c.start) with ⟨f, _ | why⟩ <;> rfl

/-- A filter compiles unless something in its plan is refused. -/
theorem Compiler.compile_isOk_iff {c : Compiler} {e : Expr} :
    (∃ clause, c.compile e = .ok clause) ↔ (c.catalog.plan e).refusal? = none := by
  rw [c.compile_eq]
  cases (c.catalog.plan e).refusal? with
  | none => exact ⟨fun _ => rfl, fun _ => ⟨_, rfl⟩⟩
  | some why => exact ⟨fun ⟨_, h⟩ => (by cases h), fun h => (by cases h)⟩

/-- Whether and why a filter is refused depends on neither the dialect nor the start. -/
theorem Compiler.compile_error_iff {c : Catalog} {d : Dialect} {start : UInt64} {e : Expr} {why : Rejection} :
    compile ⟨c, d, start⟩ e = .error why ↔ (c.plan e).refusal? = some why := by
  rw [compile_eq]
  dsimp only
  cases (c.plan e).refusal? with
  | none => simp
  | some why' => simp

end WhereClause
