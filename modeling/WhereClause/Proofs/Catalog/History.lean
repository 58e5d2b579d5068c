import WhereClause.Proofs.Catalog.Registration
import WhereClause.Proofs.Text.ByteOrder

/-!
# Catalogs and their histories

A catalog that was empty at first is what has been registered in it. What a name is registered as is decided by the
last registration of that name (`Catalog.entry?_registerAll_empty`), so what it stands for is decided by at most two
registrations, its own and that of the name it is an alias of, whichever of them came first
(`last_registrations_decide`). The names in between, and what a name was before, play no part.
-/

namespace WhereClause

/-- The last registration of a name. -/
def Registration.last? (rs : List Registration) (name : String) : Option Registration :=
  rs.reverse.find? fun r => r.name = name

example : Registration.last? [.alias "a" "b", .alias "a" "c", .alias "b" "a"] "a" = some (.alias "a" "c") := by decide

/-- A later registration of the same name counts before the first one. -/
theorem Registration.last?_cons (r : Registration) (rs : List Registration) (name : String) :
    last? (r :: rs) name = (last? rs name).or (if name = r.name then some r else none) := by
  simp only [last?, List.reverse_cons, List.find?_append, List.find?_singleton, decide_eq_true_eq]
  simp only [eq_comm (a := r.name)]

namespace Catalog

/-! ## What a name is registered as -/

/-- What a name is registered as after some registrations is decided by the last one of that name; if there is none, it
is what it was before. -/
theorem entry?_registerAll_eq_or (c : Catalog) (rs : List Registration) (name : String) :
    entry? (c.registerAll rs) name = ((Registration.last? rs name).map Registration.entry).or (c.entry? name) := by
  induction rs generalizing c with
  | nil => rfl
  | cons r rs ih =>
    have h : entry? (c.registerAll (r :: rs)) name = entry? ((c.register r).registerAll rs) name := rfl
    rw [h, ih, entry?_register, Registration.last?_cons]
    rcases Registration.last? rs name with _ | last
    · by_cases hn : name = r.name <;> simp [hn]
    · rfl

/-- In a catalog that was empty at first, a name is registered as its last registration says. -/
theorem entry?_registerAll_empty (entity : String) (rs : List Registration) (name : String) :
    entry? ((empty entity).registerAll rs) name = (Registration.last? rs name).map Registration.entry := by
  rw [entry?_registerAll_eq_or]
  exact Option.or_none

/-! ## The names of a catalog -/

theorem mem_insertName {x name : String} {xs : List String} : x ∈ insertName name xs ↔ x = name ∨ x ∈ xs := by
  induction xs with
  | nil => simp [insertName]
  | cons y ys ih =>
    unfold insertName
    split
    · simp
    · split
      next h => simp [h]
      · simp only [List.mem_cons, ih, or_left_comm]

/-- Putting a name into its place keeps a list ascending. -/
theorem ascending_insertName {name : String} {xs : List String} (h : xs.Pairwise (· < ·)) :
    (insertName name xs).Pairwise (· < ·) := by
  induction xs with
  | nil => exact List.pairwise_singleton _ name
  | cons y ys ih =>
    obtain ⟨hy, hys⟩ := List.pairwise_cons.mp h
    unfold insertName
    split
    next hlt =>
      refine List.pairwise_cons.mpr ⟨fun z hz => ?_, h⟩
      rcases List.mem_cons.mp hz with rfl | hz
      · exact hlt
      · exact String.lt_trans hlt (hy z hz)
    next hnot =>
      split
      · exact h
      next hne =>
        refine List.pairwise_cons.mpr ⟨fun z hz => ?_, ih hys⟩
        rcases mem_insertName.mp hz with rfl | hz
        · exact Std.lt_of_le_of_ne (String.not_lt.mp hnot) (Ne.symm hne)
        · exact hy z hz

/-- The names of a catalog are listed in ascending order. -/
theorem ascending_identifiers (c : Catalog) : c.identifiers.Pairwise (· < ·) := by
  unfold identifiers
  induction c.entries.map (·.1) with
  | nil => exact .nil
  | cons name names ih => exact ascending_insertName ih

/-- The names of a catalog are those that have an entry. -/
theorem mem_identifiers {c : Catalog} {name : String} : name ∈ c.identifiers ↔ name ∈ c.entries.map (·.1) := by
  unfold identifiers
  induction c.entries.map (·.1) with
  | nil => rfl
  | cons x names ih => rw [List.foldr_cons, mem_insertName, ih, List.mem_cons]

/-- The entries of a catalog are its registrations, the latest one first. -/
theorem entries_registerAll (c : Catalog) (rs : List Registration) :
    (c.registerAll rs).entries = (rs.map fun r => (r.name, r.entry)).reverse ++ c.entries := by
  induction rs generalizing c with
  | nil => rfl
  | cons r rs ih =>
    have h : (c.register r).entries = (r.name, r.entry) :: c.entries := by
      cases r <;> rfl
    have hs : (c.registerAll (r :: rs)).entries = ((c.register r).registerAll rs).entries := rfl
    rw [hs, ih, h]
    simp

/-- The names of a catalog that was empty at first are those that have been registered. -/
theorem mem_identifiers_registerAll {entity : String} {rs : List Registration} {name : String} :
    name ∈ ((empty entity).registerAll rs).identifiers ↔ ∃ r ∈ rs, r.name = name := by
  rw [mem_identifiers, entries_registerAll]
  simp [empty]

end Catalog

/-! ## The whole history -/

/-- A name stands for the field that it was last registered as. If it was last registered as an alias, it stands for the
field that the other name was last registered as, before or after; and for nothing if that one was last registered as
an alias too, or never. A name that was never registered stands for nothing. The names of the catalog are those that
have been registered, each once, in the order of their bytes. -/
theorem last_registrations_decide (entity : String) (rs : List Registration) :
    let c := (Catalog.empty entity).registerAll rs
    (∀ name, c.lookup? name =
      match Registration.last? rs name with
      | none => none
      | some (.field f) => some f
      | some (.alias _ target) =>
        match Registration.last? rs target with
        | some (.field f) => some f
        | some (.alias _ _) => none
        | none => none) ∧
      c.identifiers.Pairwise (fun a b => bytes a < bytes b) ∧ c.identifiers.Nodup ∧
      ∀ name, name ∈ c.identifiers ↔ ∃ r ∈ rs, r.name = name := by
  intro c
  refine ⟨fun name => ?_, ?_, ?_, fun name => Catalog.mem_identifiers_registerAll⟩
  · have entry (n : String) : c.entry? n = (Registration.last? rs n).map Registration.entry :=
      Catalog.entry?_registerAll_empty entity rs n
    unfold Catalog.lookup?
    rw [entry name]
    rcases Registration.last? rs name with _ | f | ⟨name', target⟩
    · rfl
    · rfl
    · simp only [Option.map_some, Registration.entry]
      rw [entry target]
      rcases Registration.last? rs target with _ | f | ⟨target', target''⟩ <;> rfl
  · exact c.ascending_identifiers.imp bytes_lt_bytes
  · refine c.ascending_identifiers.imp ?_
    rintro name _ h rfl
    exact String.lt_irrefl name h

end WhereClause
