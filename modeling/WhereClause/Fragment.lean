import WhereClause.Dialect.Basic

/-!
# Fragments

A fragment is a piece of SQL text with the values bound in it, in the order of their placeholders. A placeholder is only ever
written together with its value, and its index counts on from the first one. Indices are words of 64 bits: behind the last of
them counting goes on at zero, since the sum is not checked.
-/

namespace WhereClause

/-- A piece of SQL text and the values bound in it. The first value has the index `start`; indices count from one. -/
structure Fragment where
  dialect : Dialect
  start : UInt64
  sql : String
  args : List Value
  start_pos : 1 ≤ start
  deriving DecidableEq, Repr

namespace Fragment

/-- The larger one of an index and one is an index that a fragment can start at. -/
theorem one_le_max_one (index : UInt64) : 1 ≤ max index 1 := by
  show 1 ≤ if index ≤ 1 then 1 else index
  split
  · exact UInt64.le_refl 1
  · exact UInt64.le_of_lt (UInt64.not_le.mp ‹_›)

/-- The fragment with nothing in it. A start at zero counts as one at one. -/
def empty (dialect : Dialect) (start : UInt64) : Fragment := ⟨dialect, max start 1, "", [], one_le_max_one start⟩

/-- The index that the next value will have. -/
def next (f : Fragment) : UInt64 := f.start + .ofNat f.args.length

/-- Appends a text that binds nothing. -/
def text (f : Fragment) (s : String) : Fragment := { f with sql := f.sql ++ s }

/-- Binds a value: appends its placeholder and the value. -/
def bind (f : Fragment) (v : Value) : Fragment :=
  { f with sql := f.sql ++ f.dialect.placeholder f.next, args := f.args ++ [v] }

@[simp] theorem sql_text (f : Fragment) (s : String) : (f.text s).sql = f.sql ++ s := rfl

@[simp] theorem args_text (f : Fragment) (s : String) : (f.text s).args = f.args := rfl

@[simp] theorem next_text (f : Fragment) (s : String) : (f.text s).next = f.next := rfl

@[simp] theorem sql_bind (f : Fragment) (v : Value) : (f.bind v).sql = f.sql ++ f.dialect.placeholder f.next := rfl

@[simp] theorem args_bind (f : Fragment) (v : Value) : (f.bind v).args = f.args ++ [v] := rfl

@[simp] theorem next_bind (f : Fragment) (v : Value) : (f.bind v).next = f.next + 1 := by
  simp [next, bind, UInt64.ofNat_add, UInt64.add_assoc]

/-- Binds values one after the other, with a comma between two of them. -/
def bindAll (f : Fragment) : List Value → Fragment
  | [] => f
  | [v] => f.bind v
  | v :: vs => ((f.bind v).text ",").bindAll vs

/-- What stands before and after the first hole of a template. -/
def splitHole? : List Char → Option (List Char × List Char)
  | [] => none
  | c :: cs => if c = '?' then some ([], cs) else (splitHole? cs).map fun (head, tail) => (c :: head, tail)

/-- Appends a template with values in its first hole. A template without a hole is a text, and binds nothing. -/
def fill (f : Fragment) (template : String) (values : List Value) : Fragment :=
  match splitHole? template.toList with
  | none => f.text template
  | some (head, tail) => ((f.text (.ofList head)).bindAll values).text (.ofList tail)

end Fragment

end WhereClause
