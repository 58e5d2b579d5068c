import WhereClause.Catalog.Entity
import WhereClause.Compiler
import WhereClause.Json.Reader

/-!
# Settings

The settings of a filter service pick a dialect, an entity and the index of the first placeholder. They are read from a JSON
object with the members `dialect`, `entity` and `start_index`, of which the last may be left out, or from an array of the
same in that order. Members with other names are passed over.
-/

namespace WhereClause

/-- The settings of a filter service. -/
structure Settings where
  dialect : Dialect
  entity : Entity
  start : UInt64 := 1
  deriving DecidableEq, Repr

/-- Why settings are refused. -/
inductive SettingsError where
  /-- The text is not that of any settings. -/
  | json
  /-- Indices count from one. -/
  | invalidStart (start : UInt64)
  deriving DecidableEq, Repr

/-- What is said of settings that are refused. -/
def SettingsError.message : SettingsError → String
  | .json => "Invalid filter config"
  | .invalidStart start => "Invalid start index: " ++ toString start ++ " (must be >= 1)"

/-- The name that a document holds: a string, or the key of an object whose one member is null. -/
def Json.name? : Json → Option String
  | .string text => text
  | .object [(key, .null)] => key
  | _ => none

namespace Settings

/-- The dialect that a document names. -/
def dialect? (v : Json) : Option Dialect := v.name?.bind Dialect.ofKey?

/-- The entity that a document names. -/
def entity? (v : Json) : Option Entity := v.name?.bind Entity.ofKey?

/-- The values of the members with a key. -/
def valuesOf (key : String) (members : List (Option String × Json)) : List Json :=
  (members.filter fun m => m.1 = some key).map (·.2)

/-- The settings that a document holds. Every key must have a text, also where the member is passed over. -/
def ofJson? : Json → Option Settings
  | .array [d, e] => do
    let dialect ← dialect? d
    let entity ← entity? e
    some { dialect, entity }
  | .array [d, e, s] => do
    let dialect ← dialect? d
    let entity ← entity? e
    let start ← s.index?
    some { dialect, entity, start }
  | .object members =>
    if members.any (·.1.isNone) then none
    else match valuesOf "dialect" members, valuesOf "entity" members, valuesOf "start_index" members with
      | [d], [e], [] => do
        let dialect ← dialect? d
        let entity ← entity? e
        some { dialect, entity }
      | [d], [e], [s] => do
        let dialect ← dialect? d
        let entity ← entity? e
        let start ← s.index?
        some { dialect, entity, start }
      | _, _, _ => none
  | _ => none

/-- The settings that a JSON text spells. -/
def load (text : String) : Except SettingsError Settings :=
  match (Json.ofText? text).bind ofJson? with
  | none => .error .json
  | some s => if s.start = 0 then .error (.invalidStart s.start) else .ok s

/-- The event that reports settings. -/
def event (s : Settings) : Event :=
  ⟨.info, "Loaded filter config: " ++ s.entity.name ++ " on " ++ s.dialect.title ++ ", params from " ++ toString s.start⟩

/-- The compiler that settings ask for. -/
def compiler (s : Settings) : Compiler := ⟨s.entity.catalog, s.dialect, s.start⟩

end Settings

end WhereClause
