import WhereClause.Proofs.Fragment.Written
import WhereClause.Proofs.Placeholders

/-!
# Filling templates

Filling a template writes what stands before its first hole, the placeholders of the values with single commas between
them, numbered on from the next index, and what stands behind the hole as it is, further holes included. It is the same
as appending these texts and values one after the other (`templates_are_filled`). The next index moves while values are
bound, so the equations for the values (`Fragment.bindAll_eq`, `Fragment.bindAll_cons_eq_run`) hold of any fragment.
-/

namespace WhereClause

namespace Fragment

/-- Values are bound as their placeholders, numbered from the next index. -/
theorem bindAll_eq (f : Fragment) (vs : List Value) :
    f.bindAll vs = { f with sql := f.sql ++ f.dialect.placeholders f.next vs.length, args := f.args ++ vs } :=
  Fragment.ext (f.dialect_bindAll vs) (f.start_bindAll vs) (f.sql_bindAll vs) (f.args_bindAll vs)

/-- Binding some values is binding the first one, and then a comma and the next one, as long as there are any. -/
theorem bindAll_cons_eq_run (f : Fragment) (v : Value) (vs : List Value) :
    f.bindAll (v :: vs) = f.run (.bind v :: vs.flatMap fun w => [.text ",", .bind w]) := by
  -- Each value is numbered by the fragment that the values before it have left, so that is general.
  induction vs generalizing f v with
  | nil => rfl
  | cons w vs ih =>
    rw [bindAll]
    · exact ih ((f.bind v).text ",") w
    · exact List.cons_ne_nil w vs

/-- Edits that follow others apply to what these leave. -/
theorem run_append (f : Fragment) (edits edits' : List Edit) : f.run (edits ++ edits') = (f.run edits).run edits' :=
  List.foldl_append

/-- A template is filled in its first hole. -/
theorem fill_append {head : String} (h : '?' ∉ head.toList) (tail : String) (f : Fragment) (values : List Value) :
    f.fill (head ++ "?" ++ tail) values = ((f.text head).bindAll values).text tail := by
  rw [fill_of_mem (by simp), sides_append h]

end Fragment

/-- A template whose first hole stands between a head and a tail is filled by writing the head, as many placeholders
as there are values, from the next index on and with commas between them, and the tail; the values are bound in their
order. With one value or more this is appending the head, the first value, a comma and a value for each further one,
and the tail. A template without a hole is appended as it is and binds nothing. -/
theorem templates_are_filled (f : Fragment) :
    (∀ head tail : String, '?' ∉ head.toList →
      (∀ values, f.fill (head ++ "?" ++ tail) values =
        { f with
          sql := f.sql ++ head ++ f.dialect.placeholders f.next values.length ++ tail
          args := f.args ++ values }) ∧
      ∀ v vs, f.fill (head ++ "?" ++ tail) (v :: vs) =
        f.run (.text head :: .bind v :: vs.flatMap (fun w => [.text ",", .bind w]) ++ [.text tail])) ∧
    ∀ template : String, '?' ∉ template.toList → f.fill template [] = { f with sql := f.sql ++ template } := by
  refine ⟨fun head tail h => ⟨fun values => ?_, fun v vs => ?_⟩, fun template h => ?_⟩
  · rw [Fragment.fill_append h, Fragment.bindAll_eq]
    rfl
  · rw [Fragment.fill_append h, Fragment.bindAll_cons_eq_run, Fragment.run_append]
    rfl
  · rw [Fragment.fill_nil, Fragment.sides_eq_of_not_mem h, Fragment.text_empty]
    rfl

/-- A list across the step from one digit to two, in a template with a second mark, and a template without any. -/
theorem templates_are_filled_list :
    let f : Fragment := ((Fragment.empty .postgres 8).text "n = ").bind (.int 1)
    let template := " AND m IN (" ++ "?" ++ ") AND s = '?'"
    let values : List Value := [.int 2, .string "?", .int 3]
    '?' ∉ " AND m IN (".toList ∧ '?' ∉ " AND pinned".toList ∧
      f.fill template values =
        { f with sql := "n = $8 AND m IN ($9,$10,$11) AND s = '?'", args := .int 1 :: values } ∧
      f.fill template values =
        f.run [.text " AND m IN (", .bind (.int 2), .text ",", .bind (.string "?"), .text ",", .bind (.int 3),
          .text ") AND s = '?'"] ∧
      f.fill " AND pinned" [] = { f with sql := "n = $8 AND pinned" } := by
  intro f template values
  have hhead : '?' ∉ " AND m IN (".toList := by decide
  have hplain : '?' ∉ " AND pinned".toList := by decide
  obtain ⟨hfilled, hwhole⟩ := templates_are_filled f
  obtain ⟨hvalues, hsteps⟩ := hfilled " AND m IN (" ") AND s = '?'" hhead
  exact ⟨hhead, hplain, (hvalues values).trans (by decide +kernel), hsteps (.int 2) [.string "?", .int 3],
    (hwhole " AND pinned" hplain).trans (by decide +kernel)⟩

end WhereClause
