import WhereClause.Catalog.Field

/-!
# Catalogs

A catalog lists the identifiers that filters of one entity may use. An identifier is registered as a field, or as an alias of
another identifier; registering it again replaces what it was. An alias stands for a field only: an alias of an alias, or of a
name that is not registered, stands for nothing.
-/

namespace WhereClause

/-- What an identifier is registered as. -/
inductive CatalogEntry where
  | field (f : Field)
  | alias (target : String)
  deriving DecidableEq, Repr

/-- The identifiers of an entity: every registration so far, latest first. -/
structure Catalog where
  entity : String
  entries : List (String × CatalogEntry)
  deriving DecidableEq, Repr

namespace Catalog

/-- The catalog in which nothing is registered. -/
def empty (entity : String) : Catalog := ⟨entity, []⟩

/-- Registers a field under its name. -/
def withField (c : Catalog) (f : Field) : Catalog := { c with entries := (f.name, .field f) :: c.entries }

/-- Registers a name as an alias of another. -/
def withAlias (c : Catalog) (name target : String) : Catalog := { c with entries := (name, .alias target) :: c.entries }

/-- What a name is registered as: its latest registration. -/
def entry? (c : Catalog) (name : String) : Option CatalogEntry := c.entries.lookup name

/-- The field that a name stands for. -/
def lookup? (c : Catalog) (name : String) : Option Field :=
  match c.entry? name with
  | some (.field f) => some f
  | some (.alias target) =>
    match c.entry? target with
    | some (.field f) => some f
    | _ => none
  | none => none

/-- Puts a name into its place in an ascending list, unless it is there already. -/
def insertName (name : String) : List String → List String
  | [] => [name]
  | x :: xs => if name < x then name :: x :: xs else if name = x then x :: xs else x :: insertName name xs

/-- Every registered name once, in ascending order of its code points. -/
def identifiers (c : Catalog) : List String := (c.entries.map (·.1)).foldr insertName []

end Catalog

end WhereClause
