import WhereClause.Proofs.Blame
import WhereClause.Proofs.Expr.Flat
import WhereClause.Proofs.Renaming

/-!
# Surface spelling

Whether a call is written with its first operand as a receiver, and in which of its two spellings a symbol stands, does
not matter to what a filter compiles to (`spelling_is_indifferent`). A filter that is refused is refused for the same
reason when it is flat. Only the two numbers of a call with the wrong number of arguments move: a receiver is not
counted among the arguments, and in the flat call it is one of them.
-/

namespace WhereClause

/-- The rejection of a flat filter, from the rejection of the filter: where a receiver has not been counted, it is. -/
def Rejection.flat : Rejection → Rejection
  | .arityMismatch f expected actual => .arityMismatch f f.arity (actual + (f.arity - expected))
  | why => why

/-- Counting a receiver adds one to both numbers of a call that has one, and nothing to those of a call without. -/
theorem Rejection.flat_arityMismatch {f : Symbol} {expected actual : Nat} {receiver : Option Expr}
    (h : expected + receiver.toList.length = f.arity) :
    flat (.arityMismatch f expected actual) =
      .arityMismatch f (expected + receiver.toList.length) (actual + receiver.toList.length) := by
  have ha : f.arity - expected = receiver.toList.length := by omega
  rw [flat, ha, h]

/-- A rejection that counts no operands is the same for both spellings. -/
theorem Rejection.flat_of_ne {why : Rejection} (h : ∀ f n m, why ≠ .arityMismatch f n m) : why.flat = why := by
  cases why with
  | arityMismatch f n m => exact absurd rfl (h f n m)
  | _ => rfl

/-- A rejection that counts nothing when it is flat counts nothing. -/
theorem Rejection.eq_of_flat_eq {why flat : Rejection} (hf : ∀ f n m, flat ≠ .arityMismatch f n m)
    (h : why.flat = flat) : why = flat := by
  cases why with
  | arityMismatch f n m => exact absurd h.symm (hf f _ _)
  | _ => exact h

/-! ## Steps -/

section Steps

variable {spell : Symbol → String} {f : Field} {name : String}

/-- The error that counts the operands of a call counts the receiver with them once the call is flat. -/
theorem wrongArity_flat (g : Symbol) (receiver : Option Expr) (args : List Expr) :
    wrongArity g none ((operands receiver args).map (Expr.flat spell)) = (wrongArity g receiver args).flat := by
  have ha : 1 ≤ g.arity := by cases g <;> simp [Symbol.arity]
  cases receiver with
  | none => simp [wrongArity, operands, Rejection.flat]
  | some r =>
    have hr : g.arity - (g.arity - 1) = 1 := by omega
    simp [wrongArity, operands, Rejection.flat, hr]

/-- A field is looked up alike for both spellings. -/
theorem field_bind_flat {α : Type} {c : Catalog} {k l : Field → Except Rejection α}
    (hk : ∀ f, l f = (k f).mapError Rejection.flat) :
    (c.field name >>= l) = (c.field name >>= k).mapError Rejection.flat := by
  unfold Catalog.field
  cases c.lookup? name with
  | none => rfl
  | some f => exact hk f

/-- An operand is a constant or is none in both spellings. -/
theorem constant_flat (site : Symbol) (e : Expr) :
    (e.flat spell).constant site = (e.constant site).mapError Rejection.flat := by
  cases e with
  | call symbol receiver args => rw [Expr.flat_call]; rfl
  | _ => rfl

/-- The check of a constant counts no operands. -/
theorem check_flat (l : Literal) : f.check name l = (f.check name l).mapError Rejection.flat := by
  unfold Field.check
  cases f.type.accepts l <;> rfl

/-- Neither does the comparison of a field with a constant. -/
theorem fieldComparison_flat (op : Comparison) (l : Literal) :
    f.comparison name op l = (f.comparison name op l).mapError Rejection.flat := by
  have hc : f.check name l = (f.check name l).mapError Rejection.flat := check_flat l
  unfold Field.comparison
  cases f.kind with
  | timestamp => rcases l.instant? with _ | _ | _ <;> rfl
  | text => exact bind_mapError hc fun l => by cases op <;> rfl
  | _ => exact bind_mapError hc fun l => rfl

/-- The items of a list are checked alike. -/
theorem elements_flat (es : List Expr) :
    f.elements name (es.map (Expr.flat spell)) = (f.elements name es).mapError Rejection.flat := by
  induction es with
  | nil => rfl
  | cons e es ih =>
    rw [List.map_cons]
    unfold Field.elements
    refine bind_mapError (constant_flat .isIn e) fun l => bind_mapError (check_flat l) fun l => ?_
    exact bind_mapError ih fun vs => rfl

end Steps

/-! ## Predicates -/

namespace Catalog

variable {spell : Symbol → String} {c : Catalog}

/-- A comparison of a field has one plan in both spellings. -/
theorem compareField_flat (name : String) (op : Comparison) (right : Expr) :
    c.compareField name op (right.flat spell) = (c.compareField name op right).mapError Rejection.flat := by
  unfold compareField
  refine field_bind_flat fun f => ?_
  cases f.allows (.compare op) with
  | false => rfl
  | true => exact bind_mapError (constant_flat _ right) fun l => fieldComparison_flat op l

/-- So has a comparison of a size. -/
theorem compareSize_flat (collection : Expr) (op : Comparison) (right : Expr) :
    c.compareSize (collection.flat spell) op (right.flat spell) =
      (c.compareSize collection op right).mapError Rejection.flat := by
  cases collection with
  | ident name =>
    refine field_bind_flat fun f => ?_
    cases f.kind with
    | jsonList path =>
      cases f.allows .size with
      | false => rfl
      | true => exact bind_mapError (constant_flat _ right) fun l => by cases l <;> rfl
    | _ => rfl
  | call symbol receiver args => rw [Expr.flat_call]; rfl
  | list items => rfl
  | const l => rfl

/-- A comparison has one plan in both spellings. -/
theorem comparison_flat (hs : ∀ f, Symbol.ofText? (spell f) = some f) (left : Expr) (op : Comparison) (right : Expr) :
    c.comparison (left.flat spell) op (right.flat spell) =
      (c.comparison left op right).mapError Rejection.flat := by
  cases left with
  | ident name => exact compareField_flat name op right
  | list items => rfl
  | const l => rfl
  | call symbol receiver args =>
    rw [Expr.flat_call]
    simp only [comparison, ofText?_respell hs]
    cases h : Symbol.ofText? symbol with
    | none => rw [respell_of_unknown h]; rfl
    | some s =>
      cases s with
      | size =>
        simp only [wrongArity_flat]
        rcases operands receiver args with _ | ⟨x, _ | ⟨y, es⟩⟩
        · rfl
        · exact compareSize_flat x op right
        · rfl
      | _ => rfl

/-- A search for a field in a list has one plan in both spellings. -/
theorem memberOfList_flat (name : String) (items : List Expr) :
    c.memberOfList name (items.map (Expr.flat spell)) = (c.memberOfList name items).mapError Rejection.flat := by
  unfold memberOfList
  refine field_bind_flat fun f => ?_
  rw [List.isEmpty_map]
  cases f.allows .isIn with
  | false => rfl
  | true =>
    cases items.isEmpty with
    | true => rfl
    | false => exact bind_mapError (elements_flat items) fun vs => by cases f.kind <;> rfl

/-- A search for a constant in an array counts no operands. -/
theorem elementOfField_flat (l : Literal) (name : String) :
    c.elementOfField l name = (c.elementOfField l name).mapError Rejection.flat := by
  unfold elementOfField
  refine field_bind_flat fun f => ?_
  cases f.kind with
  | jsonList path =>
    cases f.allows .elementIn with
    | false => rfl
    | true => exact bind_mapError (check_flat l) fun l => rfl
  | _ => rfl

/-- A membership test has one plan in both spellings. -/
theorem membership_flat (element collection : Expr) :
    c.membership (element.flat spell) (collection.flat spell) =
      (c.membership element collection).mapError Rejection.flat := by
  cases element with
  | ident name =>
    cases collection with
    | list items =>
      rw [Expr.flat, Expr.flat, Expr.flatAll_eq_map]
      exact memberOfList_flat name items
    | call symbol receiver args => rw [Expr.flat_call]; rfl
    | _ => rfl
  | const l =>
    cases collection with
    | ident name => exact elementOfField_flat l name
    | call symbol receiver args => rw [Expr.flat_call]; rfl
    | _ => rfl
  | call symbol receiver args => rw [Expr.flat_call]; rfl
  | list items => rfl

/-- A search in a text has one plan in both spellings. -/
theorem containment_flat (target needle : Expr) :
    c.containment (target.flat spell) (needle.flat spell) =
      (c.containment target needle).mapError Rejection.flat := by
  cases target with
  | ident name =>
    refine field_bind_flat fun f => ?_
    cases f.allows .contains with
    | false => rfl
    | true =>
      refine bind_mapError (constant_flat _ needle) fun l => ?_
      exact bind_mapError (check_flat l) fun l => rfl
  | call symbol receiver args => rw [Expr.flat_call]; rfl
  | _ => rfl

/-- An identifier by itself counts no operands. -/
theorem standalone_flat (name : String) : c.standalone name = (c.standalone name).mapError Rejection.flat := by
  unfold standalone
  refine field_bind_flat fun f => ?_
  cases f.kind <;> cases f.allows .standalone <;> rfl

/-- A single predicate resolves to the same plan when it is flat, or is refused for the same reason. -/
theorem singlePlan_flat (hs : ∀ f, Symbol.ofText? (spell f) = some f) (e : Expr) :
    c.singlePlan (e.flat spell) = (c.singlePlan e).mapError Rejection.flat := by
  cases e with
  | ident name => exact standalone_flat name
  | list items => rfl
  | const l => rfl
  | call symbol receiver args =>
    have ho : operands none ((operands receiver args).map (Expr.flat spell)) =
      (operands receiver args).map (Expr.flat spell) := rfl
    rw [Expr.flat_call]
    simp only [singlePlan, ofText?_respell hs, wrongArity_flat, ho]
    cases h : Symbol.ofText? symbol with
    | none => rw [respell_of_unknown h]; rfl
    | some s =>
      -- Only calls with two operands are looked into.
      rcases operands receiver args with _ | ⟨x, _ | ⟨y, _ | ⟨z, es⟩⟩⟩
      · cases s <;> rfl
      · cases s <;> rfl
      · cases s with
        | compare op => exact comparison_flat hs x op y
        | isIn => exact membership_flat x y
        | contains => exact containment_flat x y
        | _ => rfl
      · cases s <;> rfl

end Catalog

/-! ## Filters -/

/-- A flat filter has the same clause as the filter at every index, or both are refused for the same reason. -/
theorem Catalog.clauseAt_flat {spell : Symbol → String} (hs : ∀ f, Symbol.ofText? (spell f) = some f) (c : Catalog)
    (d : Dialect) (index : UInt64) (e : Expr) :
    c.clauseAt d index (e.flat spell) = (c.clauseAt d index e).mapError Rejection.flat := by
  induction e using Expr.shapeInduction generalizing index with
  | joined e j x y he ihx ihy =>
    have hf : (e.flat spell).shape = .joined j (x.flat spell) (y.flat spell) := by rw [Expr.shape_flat hs, he]; rfl
    rw [c.clauseAt_of_joined d index hf, c.clauseAt_of_joined d index he]
    exact bind_mapError (ihx index) fun a => bind_mapError (ihy a.next) fun b => rfl
  | negated e x he ih =>
    have hf : (e.flat spell).shape = .negated (x.flat spell) := by rw [Expr.shape_flat hs, he]; rfl
    rw [c.clauseAt_of_negated d index hf, c.clauseAt_of_negated d index he]
    exact bind_mapError (ih index) fun a => rfl
  | single e he =>
    have hf : (e.flat spell).shape = .single := by rw [Expr.shape_flat hs, he]; rfl
    rw [c.clauseAt_of_single d index hf, c.clauseAt_of_single d index he, singlePlan_flat hs]
    cases c.singlePlan e <;> rfl

/-- The surface of a filter does not matter: with every receiver moved in front of the arguments and every symbol in
one spelling, be it the mangled or the plain one, a filter compiles to the same clause, and where it is refused, it is
refused for the same reason. Only a rejection that counts arguments shows other numbers, and only where the call that
it counts has a receiver: then both are one higher, as the receiver has become an argument. -/
theorem spelling_is_indifferent (spell : Symbol → String) (hs : ∀ f, Symbol.ofText? (spell f) = some f) (c : Catalog)
    (d : Dialect) (s : UInt64) (e : Expr) :
    (∀ a, Compiler.compile ⟨c, d, s⟩ (e.flat spell) = .ok a ↔ Compiler.compile ⟨c, d, s⟩ e = .ok a) ∧
      (∀ why, (∀ f n m, why ≠ .arityMismatch f n m) →
        (Compiler.compile ⟨c, d, s⟩ (e.flat spell) = .error why ↔ Compiler.compile ⟨c, d, s⟩ e = .error why)) ∧
      ∀ f n m, Compiler.compile ⟨c, d, s⟩ e = .error (.arityMismatch f n m) →
        ∃ symbol receiver args, (Expr.call symbol receiver args).PartOf e ∧ Symbol.ofText? symbol = some f ∧
          args.length = m ∧ n + receiver.toList.length = f.arity ∧ n ≠ m ∧
          Compiler.compile ⟨c, d, s⟩ (e.flat spell) =
            .error (.arityMismatch f (n + receiver.toList.length) (m + receiver.toList.length)) := by
  have flat : Compiler.compile ⟨c, d, s⟩ (e.flat spell) = (Compiler.compile ⟨c, d, s⟩ e).mapError Rejection.flat := by
    rw [Compiler.compile_eq_clauseAt, Compiler.compile_eq_clauseAt, Catalog.clauseAt_flat hs]
  refine ⟨fun a => ?_, fun why hw => ?_, fun f n m h => ?_⟩
  · rw [flat]
    cases Compiler.compile ⟨c, d, s⟩ e <;> simp [Except.mapError]
  · rw [flat]
    cases Compiler.compile ⟨c, d, s⟩ e with
    | ok a => simp [Except.mapError]
    | error why' =>
      simp only [Except.mapError, Except.error.injEq]
      constructor
      · exact Rejection.eq_of_flat_eq hw
      · rintro rfl
        exact Rejection.flat_of_ne hw
  · obtain ⟨x, -, hx, symbol, receiver, args, hp, hf, hm, hn, hne⟩ :=
      Catalog.exists_deserves (by rintro ⟨_, _, _, hw⟩; cases hw) h
    refine ⟨symbol, receiver, args, hp.trans hx, hf, hm, hn, hne, ?_⟩
    rw [flat, h]
    exact congrArg Except.error (Rejection.flat_arityMismatch hn)

/-- In plain spelling: a search in a text that is not its receiver any more compiles as before, a filter that is a
constant is refused as before, and `tags.size(1) > 0` is refused for two arguments where one is due, and not for one
where none is. -/
theorem spelling_is_indifferent_memo :
    let found : Expr := .and (.ident "pinned") (.contains (.ident "content") (.string "a"))
    let a : Clause := ⟨"(memo.pinned IS TRUE AND memo.content ILIKE $3)", [.string "%a%"], 4⟩
    let counted : Expr := .not (.compare (.method (.ident "tags") .size [.int 1]) .greaterThan (.int 0))
    (∀ f : Symbol, Symbol.ofText? f.plain = some f) ∧
      Compiler.compile ⟨memoCatalog, .postgres, 3⟩ found = .ok a ∧
      Compiler.compile ⟨memoCatalog, .postgres, 3⟩ (found.flat Symbol.plain) = .ok a ∧
      Compiler.compile ⟨memoCatalog, .postgres, 3⟩ (.bool true) = .error (.invalidOperand none .predicate) ∧
      Compiler.compile ⟨memoCatalog, .postgres, 3⟩ ((Expr.bool true).flat Symbol.plain) =
        .error (.invalidOperand none .predicate) ∧
      Compiler.compile ⟨memoCatalog, .postgres, 3⟩ counted = .error (.arityMismatch .size 0 1) ∧
      ∃ symbol receiver args, (Expr.call symbol receiver args).PartOf counted ∧ Symbol.ofText? symbol = some .size ∧
        args.length = 1 ∧ 0 + receiver.toList.length = Symbol.size.arity ∧ 0 ≠ 1 ∧
        Compiler.compile ⟨memoCatalog, .postgres, 3⟩ (counted.flat Symbol.plain) =
          .error (.arityMismatch .size (0 + receiver.toList.length) (1 + receiver.toList.length)) := by
  intro found a counted
  have hs : ∀ f : Symbol, Symbol.ofText? f.plain = some f := Symbol.ofText?_plain
  have hf : Compiler.compile ⟨memoCatalog, .postgres, 3⟩ found = .ok a := by decide +kernel
  have hb : Compiler.compile ⟨memoCatalog, .postgres, 3⟩ (.bool true) = .error (.invalidOperand none .predicate) := rfl
  have hc : Compiler.compile ⟨memoCatalog, .postgres, 3⟩ counted = .error (.arityMismatch .size 0 1) := by decide +kernel
  have hn : ∀ f n m, Rejection.invalidOperand none .predicate ≠ .arityMismatch f n m := by
    intro f n m h
    cases h
  exact ⟨hs, hf, ((spelling_is_indifferent Symbol.plain hs memoCatalog .postgres 3 found).1 a).mpr hf, hb,
    ((spelling_is_indifferent Symbol.plain hs memoCatalog .postgres 3 (.bool true)).2.1 _ hn).mpr hb, hc,
    (spelling_is_indifferent Symbol.plain hs memoCatalog .postgres 3 counted).2.2 .size 0 1 hc⟩

end WhereClause
