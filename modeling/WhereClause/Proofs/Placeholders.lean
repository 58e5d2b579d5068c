import WhereClause.Expr.Build
import WhereClause.Proofs.Fragment.Inert
import WhereClause.Proofs.Text.Digits

/-!
# Placeholders and values

A fragment is edited by appending texts, values, templates and filters, of which some may be refused half way.
Whatever is done to it, in any order, each of its placeholders stands for one of its values, in their order
(`placeholders_aligned`). The invariant is `Fragment.Aligned`: each edit keeps it (`Fragment.Aligned.apply`), and so
does a run (`Fragment.Aligned.run`).
-/

namespace WhereClause

/-- What stands between each `$` of a text and the first character after it that is no digit. -/
def dollarNumbers : List Char → List String
  | [] => []
  | c :: cs => if c = '$' then .ofList (cs.takeWhile Char.isDigit) :: dollarNumbers cs else dollarNumbers cs

/-- One operation on a fragment. -/
inductive Edit where
  | text (s : String)
  | bind (v : Value)
  | fill (template : String) (values : List Value)
  | convert (c : Catalog) (e : Expr)

/-- A fragment after an operation. A filter that is refused leaves behind what was written before its fault. -/
def Fragment.apply (f : Fragment) : Edit → Fragment
  | .text s => f.text s
  | .bind v => f.bind v
  | .fill template values => f.fill template values
  | .convert c e => (c.convert e f).1

/-- A fragment after some operations. -/
def Fragment.run (f : Fragment) (edits : List Edit) : Fragment := edits.foldl Fragment.apply f

/-- An operation writes no placeholder of its own: texts are plain, a template is plain around its hole or binds
nothing, and a catalog is an entity's or has plain names. -/
def Edit.Plain : Edit → Prop
  | .text s => WhereClause.Plain s
  | .bind _ => True
  | .fill template values =>
    (∃ head tail, template = head ++ "?" ++ tail ∧ WhereClause.Plain head ∧ WhereClause.Plain tail) ∨
      (WhereClause.Plain template ∧ values = [])
  | .convert c _ => (∃ entity : Entity, c = entity.catalog) ∨ c.Plain

/-! ## Numbers in a text -/

/-- Texts have their numbers one after the other, if no digit follows the first. -/
theorem dollarNumbers_append {a b : List Char} (hb : ∀ c ∈ b.head?, c.isDigit = false) :
    dollarNumbers (a ++ b) = dollarNumbers a ++ dollarNumbers b := by
  induction a with
  | nil => rfl
  | cons c a ih =>
    simp only [List.cons_append, dollarNumbers, takeWhile_isDigit_append hb, ih]
    split <;> rfl

/-- A text without a dollar sign has no numbers. -/
theorem dollarNumbers_eq_nil {cs : List Char} (h : '$' ∉ cs) : dollarNumbers cs = [] := by
  induction cs with
  | nil => rfl
  | cons c cs ih =>
    rw [List.mem_cons, not_or] at h
    rw [dollarNumbers, if_neg (Ne.symm h.1), ih h.2]

/-- A placeholder is a dollar sign and its index in decimal. -/
theorem toList_placeholder (index : UInt64) :
    (Dialect.postgres.placeholder index).toList = '$' :: Nat.toDigits 10 index.toNat := by
  show ("$" ++ toString index.toNat).toList = _
  rw [String.toList_append, Nat.toString_eq_repr, Nat.toList_repr]
  rfl

/-- A numbered placeholder holds its number. -/
theorem dollarNumbers_placeholder (index : UInt64) :
    dollarNumbers (Dialect.postgres.placeholder index).toList = [toString index] := by
  have hdollar : '$' ∉ Nat.toDigits 10 index.toNat := fun h => absurd (isDigit_of_mem_digits '$' h) (by decide)
  rw [toList_placeholder, dollarNumbers, if_pos rfl, List.takeWhile_eq_self_iff.mpr isDigit_of_mem_digits,
    ← Nat.toList_repr, String.ofList_toList, Nat.toList_repr, dollarNumbers_eq_nil hdollar]
  rfl

/-- A numbered placeholder does not begin with a digit, so no number before it runs on into it. -/
theorem isDigit_head_placeholder (index : UInt64) :
    ∀ c ∈ (Dialect.postgres.placeholder index).toList.head?, c.isDigit = false := by
  intro c hc
  rw [toList_placeholder] at hc
  obtain rfl : '$' = c := Option.some.inj hc
  rfl

/-- The indices of some values as texts: where none of them passes the last one, those of consecutive numbers. -/
theorem map_toString_indices {start : UInt64} {count : Nat} (h : start.toNat + count ≤ 2 ^ 64) :
    (indices start count).map toString = (List.range' start.toNat count).map toString := by
  rw [← map_toNat_indices h, List.map_map]
  rfl

example : dollarNumbers "n IN ($9,$10) AND m = $ OR 7".toList = ["9", "10", ""] := by decide +kernel

/-! ## The invariant -/

namespace Fragment

/-- The placeholders of a fragment are those of its values. -/
structure Aligned (d : Dialect) (start : UInt64) (f : Fragment) : Prop where
  dialect_eq : f.dialect = d
  start_eq : f.start = start
  marks : d = .mySql → f.sql.toList.count '?' = f.args.length
  numbers : d = .postgres → dollarNumbers f.sql.toList = (indices start f.args.length).map toString

namespace Aligned

variable {d : Dialect} {start : UInt64} {f : Fragment}

/-- A new fragment has neither placeholders nor values. -/
theorem empty (d : Dialect) (start : UInt64) : Aligned d (max start 1) (.empty d start) :=
  ⟨rfl, rfl, fun _ => rfl, fun _ => rfl⟩

/-- A text that is no placeholder leaves them as they are. -/
theorem text (a : Aligned d start f) {s : String} (hs : Inert d s) : Aligned d start (f.text s) := by
  refine ⟨a.dialect_eq, a.start_eq, fun hd => ?_, fun hd => ?_⟩
  · rw [sql_text, args_text, String.toList_append, List.count_append, a.marks hd, List.count_eq_zero.mpr hs.1,
      Nat.add_zero]
  · rw [sql_text, args_text, String.toList_append, dollarNumbers_append (hs.2 hd).2, a.numbers hd,
      dollarNumbers_eq_nil (hs.2 hd).1.2, List.append_nil]

/-- A value comes with the placeholder for it. -/
theorem bind (a : Aligned d start f) (v : Value) : Aligned d start (f.bind v) := by
  refine ⟨a.dialect_eq, a.start_eq, fun hd => ?_, fun hd => ?_⟩
  · have hp : (f.dialect.placeholder f.next).toList.count '?' = 1 := by
      rw [a.dialect_eq, hd, Dialect.placeholder]
      decide
    rw [sql_bind, args_bind, String.toList_append, List.count_append, a.marks hd, hp, List.length_append,
      List.length_singleton]
  · have hp : dollarNumbers (f.dialect.placeholder f.next).toList = [toString (start + .ofNat f.args.length)] := by
      rw [a.dialect_eq, hd, dollarNumbers_placeholder, next, a.start_eq]
    have hh : ∀ c ∈ (f.dialect.placeholder f.next).toList.head?, c.isDigit = false := by
      rw [a.dialect_eq, hd]
      exact isDigit_head_placeholder f.next
    rw [sql_bind, args_bind, String.toList_append, dollarNumbers_append hh, a.numbers hd, hp, List.length_append,
      List.length_singleton, indices_add, List.map_append, indices_succ]
    rfl

/-- Several values come with a placeholder each. -/
theorem bindAll (a : Aligned d start f) (vs : List Value) : Aligned d start (f.bindAll vs) := by
  have comma : Inert d "," := (show Plain "," by decide).inert d
  refine Fragment.bindAll_related (S := Eq) (R := fun f _ => Aligned d start f) ?_ (fun a => a.text comma)
    (List.forall₂_refl vs) (g := f) a
  rintro v _ rfl f _ a
  exact a.bind v

/-- Filters over a plain catalog keep placeholders and values aligned, also where they are refused. -/
theorem convert (a : Aligned d start f) {c : Catalog} (hc : c.Plain) (e : Expr) :
    Aligned d start (c.convert e f).1 := by
  let R (f g : Fragment) : Prop := f = g ∧ Aligned d start f
  have dialect {f g : Fragment} : R f g → f.dialect = d ∧ g.dialect = d := by
    rintro ⟨rfl, a⟩
    exact ⟨a.dialect_eq, a.dialect_eq⟩
  have text {s : String} (hs : Inert d s) {f g : Fragment} : R f g → R (f.text s) (g.text s) := by
    rintro ⟨rfl, a⟩
    exact ⟨rfl, a.text hs⟩
  have bind (v : Value) {f g : Fragment} : R f g → R (f.bind v) (g.bind v) := by
    rintro ⟨rfl, a⟩
    exact ⟨rfl, a.bind v⟩
  exact (hc.convert_related dialect text bind e ⟨rfl, a⟩).1.2

/-- A filled template holds the placeholders of its values only. -/
theorem fill (a : Aligned d start f) {template : String} {values : List Value}
    (h : (Edit.fill template values).Plain) : Aligned d start (f.fill template values) := by
  rcases h with ⟨head, tail, rfl, hh, ht⟩ | ⟨ht, rfl⟩
  · have hm : '?' ∈ (head ++ "?" ++ tail).toList := by simp
    rw [fill_of_mem hm, sides_append hh.1.1]
    exact ((a.text (hh.inert d)).bindAll values).text (ht.inert d)
  · rw [fill_nil, sides_eq_of_not_mem ht.1.1, text_empty]
    exact a.text (ht.inert d)

/-- Every operation keeps placeholders and values aligned. -/
theorem apply (a : Aligned d start f) {edit : Edit} (h : edit.Plain) : Aligned d start (f.apply edit) := by
  cases edit with
  | text s => exact a.text (h.inert d)
  | bind v => exact a.bind v
  | fill template values => exact a.fill h
  | convert c e =>
    rcases h with ⟨entity, rfl⟩ | h
    · exact a.convert entity.plain_catalog e
    · exact a.convert h e

/-- Operations in any order keep placeholders and values aligned. -/
theorem run (a : Aligned d start f) {edits : List Edit} (h : ∀ edit ∈ edits, edit.Plain) :
    Aligned d start (f.run edits) := by
  induction edits generalizing f with
  | nil => exact a
  | cons edit edits ih =>
    obtain ⟨he, h⟩ := List.forall_mem_cons.mp h
    exact ih (a.apply he) h

end Aligned

end Fragment

/-- Whatever is appended to a fragment, its next index counts on from the first one by the number of its values; in
MySQL it holds as many `?` as values; and in PostgreSQL each `$` in it is followed by a number, and these are the
indices of its values in their order. As long as no index passes the last one, they are consecutive numbers. -/
theorem placeholders_aligned (d : Dialect) (start : UInt64) (edits : List Edit) (h : ∀ edit ∈ edits, edit.Plain) :
    ((Fragment.empty d start).run edits).next =
        max start 1 + .ofNat ((Fragment.empty d start).run edits).args.length ∧
      (d = .mySql →
        ((Fragment.empty d start).run edits).sql.toList.count '?' = ((Fragment.empty d start).run edits).args.length) ∧
      (d = .postgres →
        dollarNumbers ((Fragment.empty d start).run edits).sql.toList =
          (indices (max start 1) ((Fragment.empty d start).run edits).args.length).map toString) ∧
      (max start.toNat 1 + ((Fragment.empty d start).run edits).args.length < 2 ^ 64 →
        ((Fragment.empty d start).run edits).next.toNat =
            max start.toNat 1 + ((Fragment.empty d start).run edits).args.length ∧
          (d = .postgres →
            dollarNumbers ((Fragment.empty d start).run edits).sql.toList =
              (List.range' (max start.toNat 1) ((Fragment.empty d start).run edits).args.length).map toString)) := by
  have a : Fragment.Aligned d (max start 1) ((Fragment.empty d start).run edits) :=
    (Fragment.Aligned.empty d start).run h
  have next : ((Fragment.empty d start).run edits).next =
      max start 1 + .ofNat ((Fragment.empty d start).run edits).args.length := by
    rw [Fragment.next, a.start_eq]
  refine ⟨next, a.marks, a.numbers, fun hn => ?_⟩
  rw [← toNat_max_one] at hn ⊢
  refine ⟨next ▸ toNat_add_ofNat hn, fun hd => ?_⟩
  rw [a.numbers hd, map_toString_indices (Nat.le_of_lt hn)]

/-- A statement that begins at 3: a text, a filter, a value, a template, and a filter that is refused behind its first
value. -/
theorem placeholders_aligned_refused :
    let c : Catalog := .withField (.empty "item") ⟨"size", .int, .scalar, ⟨"item", "2nd"⟩, Operation.ordering⟩
    let listed : Expr := .isIn (.ident "visibility") (.list [.string "PUBLIC", .string "PROTECTED"])
    let refused : Expr := .and (.eq (.ident "size") (.int 7)) (.ident "color")
    let edits : List Edit :=
      [.text "SELECT id FROM item WHERE ", .convert memoCatalog listed, .text " AND n = ", .bind (.int 5),
        .fill " AND m IN (?)" [.int 6], .text " AND ", .convert c refused]
    (∀ edit ∈ edits, edit.Plain) ∧
      (c.convert refused (.empty .postgres 3)).2 = some (.unknownIdentifier "color") ∧
      max (3 : UInt64).toNat 1 + ((Fragment.empty .postgres 3).run edits).args.length < 2 ^ 64 ∧
      ((Fragment.empty .postgres 3).run edits).next.toNat = 3 + 5 ∧
      dollarNumbers ((Fragment.empty .postgres 3).run edits).sql.toList = ["3", "4", "5", "6", "7"] ∧
      ((Fragment.empty .mySql 3).run edits).sql.toList.count '?' =
        ((Fragment.empty .mySql 3).run edits).args.length := by
  intro c listed refused edits
  have plain : ∀ edit ∈ edits, edit.Plain := by
    intro edit h
    simp only [edits, List.mem_cons, List.not_mem_nil, or_false] at h
    rcases h with rfl | rfl | rfl | rfl | rfl | rfl | rfl
    · exact (by decide : Plain "SELECT id FROM item WHERE ")
    · exact .inl ⟨.memo, rfl⟩
    · exact (by decide : Plain " AND n = ")
    · exact trivial
    · exact .inl ⟨" AND m IN (", ")", by decide, by decide, by decide⟩
    · exact (by decide : Plain " AND ")
    · exact .inr (Catalog.plain_of_entries (by decide +kernel))
  have fits : max (3 : UInt64).toNat 1 + ((Fragment.empty .postgres 3).run edits).args.length < 2 ^ 64 := by
    decide +kernel
  obtain ⟨hn, hp⟩ := (placeholders_aligned .postgres 3 edits plain).2.2.2 fits
  obtain ⟨-, hm, -⟩ := placeholders_aligned .mySql 3 edits plain
  exact ⟨plain, by decide +kernel, fits, hn.trans (by decide +kernel), (hp rfl).trans (by decide +kernel), hm rfl⟩

end WhereClause
