import WhereClause.Proofs.Blame
import WhereClause.Proofs.Catalog.History
import WhereClause.Proofs.Renaming

/-!
# The names that a catalog lists

A catalog lists every name that is registered, an alias too, whatever it is an alias of. A listed name may therefore
stand for nothing: it dangles if the other name is not registered, or is an alias itself (`Catalog.Dangles`). All other
listed names stand for a field, and only they do; so a catalog lists the names that filters may use exactly if none of
its names dangles (`listed_names_are_known_or_dangle`).
-/

namespace WhereClause

namespace Catalog

variable {c : Catalog} {name : String}

/-- A name is registered as an alias of a name that is not registered as a field. -/
def Dangles (c : Catalog) (name : String) : Prop :=
  ∃ target, c.entry? name = some (.alias target) ∧ ∀ f, c.entry? target ≠ some (.field f)

/-! ## Names that stand for nothing -/

/-- A name stands for nothing if it is not registered, or dangles. -/
theorem lookup?_eq_none_iff : c.lookup? name = none ↔ c.entry? name = none ∨ c.Dangles name := by
  rw [Option.eq_none_iff_forall_ne_some]
  simp only [ne_eq, lookup?_eq_some_iff, Dangles]
  rcases c.entry? name with _ | f | target <;> simp

/-- The names that are listed are those that have an entry. -/
theorem mem_identifiers_iff_ne_none : name ∈ c.identifiers ↔ c.entry? name ≠ none := by
  rw [mem_identifiers, entry?, ne_eq, List.lookup_eq_none_iff]
  simp only [List.mem_map, bne_iff_ne, not_forall, not_not, exists_prop]
  exact exists_congr fun entry => and_congr_right fun _ => eq_comm

/-- A listed name stands for a field or dangles. -/
theorem mem_identifiers_iff : name ∈ c.identifiers ↔ (∃ f, c.lookup? name = some f) ∨ c.Dangles name := by
  rw [mem_identifiers_iff_ne_none]
  constructor
  · intro h
    cases hl : c.lookup? name with
    | none => exact .inr ((lookup?_eq_none_iff.mp hl).resolve_left h)
    | some f => exact .inl ⟨f, rfl⟩
  · rintro (⟨f, hf⟩ | ⟨target, he, -⟩) hn
    · rw [lookup?_eq_none_iff.mpr (.inl hn)] at hf
      cases hf
    · rw [hn] at he
      cases he

/-! ## Histories -/

/-- The last registration of a name is one of that name. -/
theorem name_of_last? {rs : List Registration} {r : Registration} (h : Registration.last? rs name = some r) :
    r.name = name := by
  simpa using List.find?_some h

/-- In a catalog that was empty at first, a name is a field if that is its last registration. -/
theorem entry?_eq_field_iff {entity : String} {rs : List Registration} {f : Field} :
    entry? ((empty entity).registerAll rs) name = some (.field f) ↔ Registration.last? rs name = some (.field f) := by
  rw [entry?_registerAll_empty]
  rcases Registration.last? rs name with _ | g | ⟨name', target⟩ <;> simp [Registration.entry]

/-- In a catalog that was empty at first, a name is an alias if that is its last registration. -/
theorem entry?_eq_alias_iff {entity : String} {rs : List Registration} {target : String} :
    entry? ((empty entity).registerAll rs) name = some (.alias target) ↔
      Registration.last? rs name = some (.alias name target) := by
  rw [entry?_registerAll_empty]
  rcases h : Registration.last? rs name with _ | g | ⟨name', target'⟩
  · simp
  · simp [Registration.entry]
  · obtain rfl : name' = name := name_of_last? h
    simp [Registration.entry]

end Catalog

namespace Compiler

variable {c : Catalog} {d : Dialect} {s : UInt64} {e : Expr} {name : String}

/-! ## What is refused as unknown -/

/-- A name that is refused as unknown is one of the filter, and stands for nothing. -/
theorem unknown_of_error (h : compile ⟨c, d, s⟩ e = .error (.unknownIdentifier name)) :
    name ∈ e.names ∧ c.lookup? name = none := by
  refine ⟨mem_names_of_error h rfl, ?_⟩
  have hw : (Rejection.unknownIdentifier name).BlamesType → c.CountsInstants := by
    rintro ⟨subject, expected, actual, hw⟩
    cases hw
  obtain ⟨x, -, -, hd⟩ := Catalog.exists_deserves hw h
  exact hd.2

/-- A name that stands for nothing is refused where it is the whole filter. -/
theorem compile_ident_of_lookup?_eq_none (h : c.lookup? name = none) :
    compile ⟨c, d, s⟩ (.ident name) = .error (.unknownIdentifier name) := by
  rw [compile_error_iff, c.plan_of_single rfl, Catalog.singlePlan, Catalog.standalone, Catalog.field, h]
  rfl

end Compiler

/-- A name that is listed stands for a field, or else it dangles: it was last registered as an alias, of a name that was
not last registered as a field. So the listed names are those that stand for a field if, and only if, none dangles.
Whatever is compiled, the names of a filter that compiles are listed, and a listed name is refused as unknown by some
filter exactly if it dangles. -/
theorem listed_names_are_known_or_dangle (entity : String) (rs : List Registration) :
    let c := (Catalog.empty entity).registerAll rs
    (∀ name, c.Dangles name ↔ ∃ target, Registration.last? rs name = some (.alias name target) ∧
      ∀ f, Registration.last? rs target ≠ some (.field f)) ∧
    (∀ name, name ∈ c.identifiers ↔ (∃ f, c.lookup? name = some f) ∨ c.Dangles name) ∧
    (∀ name, c.Dangles name → c.lookup? name = none) ∧
    ((∀ name, name ∈ c.identifiers ↔ ∃ f, c.lookup? name = some f) ↔ ∀ name, ¬ c.Dangles name) ∧
    ∀ (d : Dialect) (s : UInt64),
      (∀ e clause, Compiler.compile ⟨c, d, s⟩ e = .ok clause → ∀ name ∈ e.names, name ∈ c.identifiers) ∧
      (∀ e name, Compiler.compile ⟨c, d, s⟩ e = .error (.unknownIdentifier name) → name ∈ e.names ∧
        (name ∈ c.identifiers → c.Dangles name)) ∧
      ∀ name ∈ c.identifiers,
        (∃ e, Compiler.compile ⟨c, d, s⟩ e = .error (.unknownIdentifier name)) ↔ c.Dangles name := by
  intro c
  have listed (name : String) : name ∈ c.identifiers ↔ (∃ f, c.lookup? name = some f) ∨ c.Dangles name :=
    Catalog.mem_identifiers_iff
  have unknown (name : String) (h : c.Dangles name) : c.lookup? name = none := Catalog.lookup?_eq_none_iff.mpr (.inr h)
  have dangling (name : String) (hn : name ∈ c.identifiers) (h : c.lookup? name = none) : c.Dangles name :=
    (Catalog.lookup?_eq_none_iff.mp h).resolve_left (Catalog.mem_identifiers_iff_ne_none.mp hn)
  refine ⟨fun name => ?_, listed, unknown, ⟨fun h name hd => ?_, fun h name => ?_⟩, fun d s => ⟨?_, ?_, ?_⟩⟩
  · simp only [Catalog.Dangles, c, Catalog.entry?_eq_alias_iff, ne_eq, Catalog.entry?_eq_field_iff]
  · obtain ⟨f, hf⟩ := (h name).mp ((listed name).mpr (.inr hd))
    rw [unknown name hd] at hf
    cases hf
  · rw [listed name]
    exact or_iff_left (h name)
  · intro e clause h name hn
    exact (listed name).mpr (.inl (Catalog.lookup?_of_mem_names (Compiler.compile_isOk_iff.mp ⟨clause, h⟩) hn))
  · intro e name h
    obtain ⟨hn, hl⟩ := Compiler.unknown_of_error h
    exact ⟨hn, fun hm => dangling name hm hl⟩
  · intro name hn
    constructor
    · rintro ⟨e, h⟩
      exact dangling name hn (Compiler.unknown_of_error h).2
    · intro h
      exact ⟨.ident name, Compiler.compile_ident_of_lookup?_eq_none (unknown name h)⟩

/-- An alias of a name that was never registered is listed, and refused as unknown. -/
theorem dangling_alias_is_listed :
    let c := (Catalog.empty "memo").registerAll [.alias "a" "missing"]
    "a" ∈ c.identifiers ∧ c.lookup? "a" = none ∧
      Compiler.compile ⟨c, .mySql, 1⟩ (.ident "a") = .error (.unknownIdentifier "a") := by
  decide +kernel

end WhereClause
