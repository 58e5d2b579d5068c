import WhereClause.Catalog.Basic

/-!
# Registering further identifiers

A catalog grows by registrations, of fields and of aliases, one after the other. A registration changes what its own
name is registered as and nothing else (`Catalog.entry?_register`). So a field that is looked up stays the same while
the names that are registered are new ones, even though an alias that stood for nothing may come to stand for a field
(`Catalog.lookup?_registerAll`).
-/

namespace WhereClause

/-- One registration in a catalog. -/
inductive Registration where
  | field (f : Field)
  | alias (name target : String)
  deriving DecidableEq, Repr

namespace Registration

/-- The name that is registered. -/
def name : Registration → String
  | .field f => f.name
  | .alias name _ => name

/-- What the name is registered as. -/
def entry : Registration → CatalogEntry
  | .field f => .field f
  | .alias _ target => .alias target

end Registration

namespace Catalog

/-- A catalog after a registration. -/
def register (c : Catalog) : Registration → Catalog
  | .field f => c.withField f
  | .alias name target => c.withAlias name target

/-- A catalog after some registrations. -/
def registerAll (c : Catalog) (rs : List Registration) : Catalog := rs.foldl register c

/-! ## What a name is registered as -/

/-- A registration replaces what its name is registered as. -/
theorem entry?_register (c : Catalog) (r : Registration) (name : String) :
    entry? (c.register r) name = if name = r.name then some r.entry else c.entry? name := by
  have h : (c.register r).entries = (r.name, r.entry) :: c.entries := by
    cases r <;> rfl
  unfold entry?
  rw [h, List.lookup_cons]
  by_cases hn : name = r.name
  · simp [hn]
  · have hb : (name == r.name) = false := beq_false_of_ne hn
    rw [hb, if_neg hn]

/-- Registrations of other names leave a name as it is. -/
theorem entry?_registerAll (c : Catalog) {rs : List Registration} {name : String} (h : ∀ r ∈ rs, r.name ≠ name) :
    entry? (c.registerAll rs) name = c.entry? name := by
  induction rs generalizing c with
  | nil => rfl
  | cons r rs ih =>
    obtain ⟨hr, hrs⟩ := List.forall_mem_cons.mp h
    have hs : entry? (c.registerAll (r :: rs)) name = entry? (c.register r) name := ih (c.register r) hrs
    rw [hs, entry?_register, if_neg (Ne.symm hr)]

/-! ## What a name stands for -/

/-- A name stands for a field if it is registered as that field, or as an alias of a name that is. -/
theorem lookup?_eq_some_iff {c : Catalog} {name : String} {f : Field} :
    c.lookup? name = some f ↔ c.entry? name = some (.field f) ∨
      ∃ target, c.entry? name = some (.alias target) ∧ c.entry? target = some (.field f) := by
  unfold lookup?
  rcases c.entry? name with _ | g | target
  · simp
  · simp
  · simp only [Option.some.injEq, CatalogEntry.alias.injEq, reduceCtorEq, exists_eq_left', false_or]
    rcases c.entry? target with _ | g | target' <;> simp

/-- An alias stands for what its target does, unless that is an alias too. -/
theorem lookup?_of_alias {c : Catalog} {name target : String} (h : c.entry? name = some (.alias target))
    (ht : ∀ target', c.entry? target ≠ some (.alias target')) : c.lookup? name = c.lookup? target := by
  unfold lookup?
  rw [h]
  rcases he : c.entry? target with _ | f | target'
  · simp [he]
  · simp [he]
  · exact absurd he (ht target')

/-- An alias of an alias stands for nothing: only one step is followed. -/
theorem lookup?_of_alias_of_alias {c : Catalog} {name target target' : String}
    (h : c.entry? name = some (.alias target)) (ht : c.entry? target = some (.alias target')) :
    c.lookup? name = none := by
  unfold lookup?
  rw [h]
  simp only [ht]

/-- A field that is looked up stays the same when names are registered that have not been registered before. -/
theorem lookup?_registerAll {c : Catalog} {rs : List Registration} {name : String} {f : Field}
    (h : ∀ r ∈ rs, c.entry? r.name = none) (hf : c.lookup? name = some f) :
    (c.registerAll rs).lookup? name = some f := by
  have old {n : String} {entry : CatalogEntry} (hn : c.entry? n = some entry) :
      entry? (c.registerAll rs) n = some entry := by
    rw [entry?_registerAll, hn]
    intro r hr he
    have := h r hr
    rw [he, hn] at this
    cases this
  rcases lookup?_eq_some_iff.mp hf with hn | ⟨target, hn, ht⟩
  · exact lookup?_eq_some_iff.mpr (.inl (old hn))
  · exact lookup?_eq_some_iff.mpr (.inr ⟨target, old hn, old ht⟩)

end Catalog

end WhereClause
