import WhereClause.Catalog.Basic

/-!
# The fields of a catalog

A field that is looked up has been registered, under its own name or under another one. What holds of every field that
is registered therefore holds of every field that is looked up.
-/

namespace WhereClause.Catalog

/-- A field that is looked up has been registered. -/
theorem mem_entries_of_lookup? {c : Catalog} {name : String} {f : Field} (h : c.lookup? name = some f) :
    CatalogEntry.field f ∈ c.entries.map (·.2) := by
  have registered {name : String} (h : c.entry? name = some (.field f)) :
      CatalogEntry.field f ∈ c.entries.map (·.2) := by
    obtain ⟨l, r, hl, -⟩ := List.lookup_eq_some_iff.mp h
    simp [hl]
  unfold lookup? at h
  split at h
  next he => exact registered (he.trans (by simpa using h))
  next target he =>
    split at h
    next ht => exact registered (ht.trans (by simpa using h))
    · cases h
  · cases h

/-- The fields that have been registered, latest first. -/
def fields (c : Catalog) : List Field :=
  c.entries.filterMap fun entry =>
    match entry.2 with
    | .field f => some f
    | .alias _ => none

/-- A field that a name stands for is registered. -/
theorem mem_fields_of_lookup? {c : Catalog} {name : String} {f : Field} (h : c.lookup? name = some f) :
    f ∈ c.fields := by
  obtain ⟨entry, hm, he⟩ := List.mem_map.mp (mem_entries_of_lookup? h)
  refine List.mem_filterMap.mpr ⟨entry, hm, ?_⟩
  rw [he]

end WhereClause.Catalog
