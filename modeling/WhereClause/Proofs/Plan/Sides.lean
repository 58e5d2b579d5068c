import WhereClause.Plan.Write

/-!
# What a predicate writes

Whatever snippet a predicate is written with, it appends a text, its values with commas between them, and a text
(`Predicate.write_eq`). The two texts (`Predicate.sides`) depend on the dialect and on what the predicate is about,
the values (`Predicate.values`) on what it compares with. This holds in every catalog, also where a name holds a `?`:
the hole of a template is its first one, wherever it comes from.
-/

namespace WhereClause

/-! ## Templates -/

namespace Fragment

/-- A text without a question mark has no hole. -/
theorem splitHole?_eq_none {cs : List Char} (h : '?' ∉ cs) : splitHole? cs = none := by
  induction cs with
  | nil => rfl
  | cons c cs ih =>
    rw [List.mem_cons, not_or] at h
    simp [splitHole?, Ne.symm h.1, ih h.2]

/-- A text is split at its first question mark. -/
theorem splitHole?_append {head : List Char} (h : '?' ∉ head) (tail : List Char) :
    splitHole? (head ++ '?' :: tail) = some (head, tail) := by
  induction head with
  | nil => simp [splitHole?]
  | cons c cs ih =>
    rw [List.mem_cons, not_or] at h
    simp [splitHole?, Ne.symm h.1, ih h.2]

/-- The texts before and after the hole of a template; without a hole, the template and nothing. -/
def sides (template : String) : String × String :=
  match splitHole? template.toList with
  | none => (template, "")
  | some (head, tail) => (.ofList head, .ofList tail)

/-- A template without a hole stands on one side. -/
theorem sides_eq_of_not_mem {template : String} (h : '?' ∉ template.toList) : sides template = (template, "") := by
  rw [sides, splitHole?_eq_none h]

/-- A template is cut at its first hole. -/
theorem sides_append {head : String} (h : '?' ∉ head.toList) (tail : String) :
    sides (head ++ "?" ++ tail) = (head, tail) := by
  have hs : (head ++ "?" ++ tail).toList = head.toList ++ '?' :: tail.toList := by simp
  rw [sides, hs, splitHole?_append h]
  simp only [String.ofList_toList]

/-- A text without a hole stands before the hole of what comes after it. -/
theorem sides_append_left {a : String} (h : '?' ∉ a.toList) (b : String) :
    sides (a ++ b) = (a ++ (sides b).1, (sides b).2) := by
  by_cases hb : '?' ∈ b.toList
  · obtain ⟨head, tail, hb, hn⟩ := List.eq_append_cons_of_mem hb
    have hab : (a ++ b).toList = (a.toList ++ head) ++ '?' :: tail := by simp [hb]
    have hn' : '?' ∉ a.toList ++ head := by
      rw [List.mem_append, not_or]
      exact ⟨h, hn⟩
    simp only [sides, hb, hab, splitHole?_append hn, splitHole?_append hn', String.ofList_append, String.ofList_toList]
  · have hab : '?' ∉ (a ++ b).toList := by
      rw [String.toList_append, List.mem_append, not_or]
      exact ⟨h, hb⟩
    rw [sides_eq_of_not_mem hb, sides_eq_of_not_mem hab]

@[simp] theorem text_empty (f : Fragment) : f.text "" = f := by
  simp [text]

/-- Filling a template that has a hole writes its two sides around the values. -/
theorem fill_of_mem {template : String} (h : '?' ∈ template.toList) (f : Fragment) (values : List Value) :
    f.fill template values = ((f.text (sides template).1).bindAll values).text (sides template).2 := by
  obtain ⟨head, tail, ht, hn⟩ := List.eq_append_cons_of_mem h
  rw [fill, sides, ht, splitHole?_append hn]

/-- Filling any template with no values writes its two sides. -/
theorem fill_nil (f : Fragment) (template : String) :
    f.fill template [] = (f.text (sides template).1).text (sides template).2 := by
  unfold fill sides
  cases splitHole? template.toList with
  | none => simp
  | some sides => rfl

end Fragment

/-- Whether the template of a snippet has a hole of its own. -/
def Snippet.hasHole : Snippet → Bool
  | .like _ | .oneOf _ | .jsonCompare _ _ | .holdsTag _ | .holdsElement _ => true
  | _ => false

theorem mem_toList_append_right {c : Char} {a b : String} (h : c ∈ b.toList) : c ∈ (a ++ b).toList := by
  rw [String.toList_append]
  exact List.mem_append_right _ h

/-- The templates that take values have a hole. -/
theorem Dialect.hole_mem_template (d : Dialect) {s : Snippet} (h : s.hasHole = true) : '?' ∈ (d.template s).toList := by
  cases s with
  | like c => cases d <;> exact mem_toList_append_right (by decide)
  | oneOf c => cases d <;> exact mem_toList_append_right (by decide)
  | jsonCompare p op => cases d <;> exact mem_toList_append_right (by decide)
  | holdsTag p => cases d <;> exact mem_toList_append_right (by decide)
  | holdsElement p => cases d <;> exact mem_toList_append_right (by decide)
  | _ => cases h

/-! ## Predicates -/

namespace Predicate

/-- The texts that a predicate writes before and after its values. -/
def sides (d : Dialect) : Predicate → String × String
  | .isTrue c => Fragment.sides (d.template (.isTrue c))
  | .jsonIsTrue p => Fragment.sides (d.template (.jsonIsTrue p))
  | .like c _ => Fragment.sides (d.template (.like c))
  | .compare c op _ => (d.template (.column c) ++ " " ++ op.sql ++ " ", "")
  | .compareInstant c op _ => (d.template (.seconds c) ++ " " ++ op.sql ++ " ", "")
  | .compareJson p op _ => Fragment.sides (d.template (.jsonCompare p op))
  | .compareSize p op _ => (d.template (.arrayLength p) ++ " " ++ op.sql ++ " ", "")
  | .oneOf c _ => Fragment.sides (d.template (.oneOf c))
  | .hasTag p _ => Fragment.sides (d.template (.holdsTag p))
  | .hasElement p _ => Fragment.sides (d.template (.holdsElement p))

/-- The values that a predicate binds. -/
def values (d : Dialect) : Predicate → List Value
  | .isTrue _ | .jsonIsTrue _ => []
  | .like _ pattern => [.string pattern]
  | .compare _ _ value => [value]
  | .compareInstant _ _ seconds => [.int seconds]
  | .compareJson _ _ (.bool b) => [d.boolParam b]
  | .compareJson _ _ value => [value.toValue]
  | .compareSize _ _ size => [.int size]
  | .oneOf _ values => values
  | .hasTag _ tag => [tag]
  | .hasElement _ element => [element]

/-- A predicate writes a text, its values and a text. -/
theorem write_eq (f : Fragment) (p : Predicate) :
    p.write f = ((f.text (p.sides f.dialect).1).bindAll (p.values f.dialect)).text (p.sides f.dialect).2 := by
  cases p with
  | isTrue c => exact f.fill_nil _
  | jsonIsTrue p => exact f.fill_nil _
  | like c pattern => exact Fragment.fill_of_mem (f.dialect.hole_mem_template rfl) f _
  | compare c op value => exact (Fragment.text_empty _).symm
  | compareInstant c op seconds => exact (Fragment.text_empty _).symm
  | compareJson p op value =>
    cases value <;> exact Fragment.fill_of_mem (f.dialect.hole_mem_template rfl) f _
  | compareSize p op size => exact (Fragment.text_empty _).symm
  | oneOf c values => exact Fragment.fill_of_mem (f.dialect.hole_mem_template rfl) f _
  | hasTag p tag => exact Fragment.fill_of_mem (f.dialect.hole_mem_template rfl) f _
  | hasElement p element => exact Fragment.fill_of_mem (f.dialect.hole_mem_template rfl) f _

end Predicate

end WhereClause
