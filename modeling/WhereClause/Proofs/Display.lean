import Mathlib.Data.List.Forall2
import WhereClause.Catalog.Entity
import WhereClause.Compiler

/-!
# What the text of a filter shows

The text of a call shows its operands one after another (`Shows`), with one exception: a call of an operator that has
all its operands among its arguments is written around these, and then there is no place for a receiver
(`Expr.isOperation`). Nothing of such a receiver is shown, so the text is that of the filter without it
(`Expr.pruned`); every other identifier and constant is shown, in the report of a refused filter too
(`receivers_without_a_place_are_not_shown`).
-/

namespace WhereClause

/-! ## Texts within a text -/

/-- Some texts stand in a text one after another, each of them behind the end of the one before. -/
inductive Shows : String → List String → Prop
  | nil (text : String) : Shows text []
  | cons (before part : String) {text : String} {parts : List String} : Shows text parts →
      Shows (before ++ part ++ text) (part :: parts)

namespace Shows

variable {text other : String} {parts more : List String}

/-- What a text shows it shows behind another one. -/
theorem behind (before : String) (h : Shows text parts) : Shows (before ++ text) parts := by
  cases h with
  | nil => exact .nil _
  | cons between part h =>
    rw [← String.append_assoc, ← String.append_assoc]
    exact .cons _ part h

/-- Two texts show one behind the other what each of them shows. -/
theorem append (h : Shows text parts) (h' : Shows other more) : Shows (text ++ other) (parts ++ more) := by
  induction h with
  | nil text => exact h'.behind text
  | cons before part _ ih =>
    rw [String.append_assoc]
    exact .cons before part ih

/-- What a text shows it shows before another one. -/
theorem before (h : Shows text parts) (after : String) : Shows (text ++ after) parts := by
  have := h.append (.nil after)
  rwa [List.append_nil] at this

/-- A text shows itself. -/
theorem self (text : String) : Shows text [text] := by
  have := Shows.cons "" text (.nil "")
  rwa [String.empty_append, String.append_empty] at this

/-- What is shown by the texts that are shown is shown. -/
theorem trans {details : List (List String)} (h : Shows text parts) (hd : List.Forall₂ Shows parts details) :
    Shows text details.flatten := by
  induction h generalizing details with
  | nil text =>
    cases hd
    exact .nil text
  | cons before part _ ih =>
    cases hd with
    | cons hp hps => exact (hp.behind before).append (ih hps)

/-- Texts are shown with any words between them. -/
theorem intercalate (sep : String) (parts : List String) : Shows (sep.intercalate parts) parts := by
  induction parts with
  | nil => exact .nil _
  | cons part parts ih =>
    cases parts with
    | nil =>
      rw [String.intercalate_singleton]
      exact .self part
    | cons next parts =>
      rw [String.intercalate_cons_cons]
      exact ((self part).before sep).append ih

/-- What a text shows is a part of it. -/
theorem isInfix_of_mem (h : Shows text parts) {part : String} (hp : part ∈ parts) : part.toList <:+: text.toList := by
  induction h with
  | nil => cases hp
  | @cons before first text _ _ ih =>
    simp only [String.toList_append]
    rcases List.mem_cons.mp hp with rfl | hp
    · exact ⟨before.toList, text.toList, rfl⟩
    · exact (ih hp).trans (List.suffix_append _ _).isInfix

end Shows

/-! ## Calls -/

/-- The symbols that are written between or before their operands. -/
def Symbol.isOperator : Symbol → Bool
  | .contains | .size => false
  | _ => true

namespace Expr

/-- A call of the symbol with so many arguments is written as an operation on them. -/
def isOperation (symbol : String) (count : Nat) : Bool :=
  (Symbol.ofText? symbol).any fun f => f.isOperator && f.arity == count

example : isOperation "_&&_" 2 = true ∧ isOperation "_&&_" 1 = false ∧ isOperation "contains" 2 = false := by decide

/-- The operands of a call that have a place in its text. -/
def shownOperands (symbol : String) (receiver : Option Expr) (args : List Expr) : List Expr :=
  if isOperation symbol args.length then args else operands receiver args

/-- A plain call shows its receiver and its arguments. -/
theorem shows_renderPlainCall (symbol : String) (receiver : Option String) (args : List String) :
    Shows (renderPlainCall symbol receiver args) (receiver.toList ++ args) := by
  have hargs : Shows (symbol ++ "(" ++ ", ".intercalate args ++ ")") args :=
    ((Shows.intercalate ", " args).behind _).before _
  cases receiver with
  | none => simpa [renderPlainCall, String.append_assoc] using hargs
  | some r => simpa [renderPlainCall, String.append_assoc] using ((Shows.self r).before ".").append hargs

/-- What is no operation is shown as a plain call. -/
theorem renderCall_of_not_isOperation {symbol : String} {args : List String}
    (h : isOperation symbol args.length = false) (receiver : Option String) :
    renderCall symbol receiver args = renderPlainCall symbol receiver args := by
  unfold renderCall
  unfold isOperation at h
  split <;> simp_all [Symbol.isOperator, Symbol.arity]

/-- An operator shows the operands on its two sides. -/
theorem shows_infix (l op r : String) : Shows ("(" ++ l ++ op ++ r ++ ")") [l, r] := by
  have h := (Shows.cons op r (.nil ")")).append (.nil "")
  have := Shows.cons "(" l h
  simpa [String.append_assoc] using this

/-- An operation is written around its arguments, whatever its receiver is. -/
theorem renderCall_of_isOperation {symbol : String} {args : List String} (h : isOperation symbol args.length = true) :
    (∀ receiver, renderCall symbol receiver args = renderCall symbol none args) ∧
      Shows (renderCall symbol none args) args := by
  obtain ⟨f, hf, hop⟩ := (Option.any_eq_true _ _).mp h
  simp only [Bool.and_eq_true, beq_iff_eq] at hop
  obtain ⟨hop, hn⟩ := hop
  cases f with
  | contains | size => cases hop
  | not =>
    obtain ⟨x, rfl⟩ := List.length_eq_one_iff.mp hn.symm
    refine ⟨fun receiver => by simp only [renderCall, hf], ?_⟩
    simp only [renderCall, hf]
    exact .cons "!(" x (.nil ")")
  | and | or | isIn =>
    obtain ⟨l, r, rfl⟩ := List.length_eq_two.mp hn.symm
    refine ⟨fun receiver => by simp only [renderCall, hf], ?_⟩
    simp only [renderCall, hf]
    exact shows_infix l _ r
  | compare op =>
    obtain ⟨l, r, rfl⟩ := List.length_eq_two.mp hn.symm
    refine ⟨fun receiver => by simp only [renderCall, hf], ?_⟩
    have := shows_infix l (" " ++ op.plain ++ " ") r
    simp only [renderCall, hf]
    rwa [← String.append_assoc, ← String.append_assoc] at this

/-- A call is shown by the texts of its operands. -/
theorem render_call (symbol : String) (receiver : Option Expr) (args : List Expr) :
    (call symbol receiver args).render = renderCall symbol (receiver.map render) (args.map render) := by
  cases receiver <;> simp [render, renderAll_eq_map]

/-- The receiver of an operation does not change its text. -/
theorem render_of_isOperation {symbol : String} {args : List Expr} (h : isOperation symbol args.length = true)
    (receiver : Option Expr) : (call symbol receiver args).render = (call symbol none args).render := by
  rw [render_call, render_call]
  exact (renderCall_of_isOperation (by rwa [List.length_map])).1 _

/-- The text of a call shows the operands that have a place in it. -/
theorem shows_call (symbol : String) (receiver : Option Expr) (args : List Expr) :
    Shows (call symbol receiver args).render ((shownOperands symbol receiver args).map render) := by
  unfold shownOperands
  have hlength : (args.map render).length = args.length := List.length_map render
  cases h : isOperation symbol args.length with
  | true =>
    rw [render_of_isOperation h, render_call, if_pos rfl]
    exact (renderCall_of_isOperation (by rwa [hlength])).2
  | false =>
    rw [render_call, renderCall_of_not_isOperation (by rwa [hlength])]
    have hmap : (operands receiver args).map render = (receiver.map render).toList ++ args.map render := by
      cases receiver <;> rfl
    rw [if_neg Bool.false_ne_true, hmap]
    exact shows_renderPlainCall _ _ _

/-- Exactly the calls that are no operations show all their operands, whatever their receiver is. -/
theorem shows_operands_iff {symbol : String} {args : List Expr} :
    (∀ receiver, Shows (call symbol receiver args).render ((operands receiver args).map render)) ↔
      isOperation symbol args.length = false := by
  constructor
  · intro h
    by_contra hop
    -- The text is the same for a receiver that is longer than it.
    let long : Expr := .ident ((call symbol none args).render ++ "x")
    have hlong := ((h (some long)).isInfix_of_mem (List.mem_cons_self (a := long.render))).length_le
    rw [render_of_isOperation (eq_true_of_ne_false hop), render, String.toList_append, List.length_append] at hlong
    exact absurd hlong (Nat.not_succ_le_self _)
  · intro h receiver
    have hshown := shows_call symbol receiver args
    rwa [shownOperands, h, if_neg Bool.false_ne_true] at hshown

end Expr

/-! ## Filters -/

mutual

/-- An expression without the receivers that have no place in its text. -/
def Expr.pruned : Expr → Expr
  | .ident name => .ident name
  | .const value => .const value
  | .list items => .list (Expr.prunedAll items)
  | .call symbol none args => .call symbol none (Expr.prunedAll args)
  | .call symbol (some receiver) args =>
    .call symbol (if Expr.isOperation symbol args.length then none else some receiver.pruned) (Expr.prunedAll args)

/-- Several expressions, each of them without such receivers. -/
def Expr.prunedAll : List Expr → List Expr
  | [] => []
  | e :: es => e.pruned :: Expr.prunedAll es

end

mutual

/-- The identifiers and constants of an expression from left to right; a receiver comes before the arguments. -/
def Expr.leaves : Expr → List Expr
  | .ident name => [.ident name]
  | .const value => [.const value]
  | .list items => Expr.leavesAll items
  | .call _ none args => Expr.leavesAll args
  | .call _ (some receiver) args => receiver.leaves ++ Expr.leavesAll args

/-- The identifiers and constants of several expressions. -/
def Expr.leavesAll : List Expr → List Expr
  | [] => []
  | e :: es => e.leaves ++ Expr.leavesAll es

end

namespace Expr

theorem prunedAll_eq_map (es : List Expr) : prunedAll es = es.map pruned := by
  induction es with
  | nil => rfl
  | cons e es ih => rw [prunedAll, ih, List.map_cons]

theorem leavesAll_eq_flatMap (es : List Expr) : leavesAll es = es.flatMap leaves := by
  induction es with
  | nil => rfl
  | cons e es ih => rw [leavesAll, ih, List.flatMap_cons]

/-- The leaves that are left of a call are those of its operands that have a place in the text. -/
theorem leaves_pruned_call (symbol : String) (receiver : Option Expr) (args : List Expr) :
    (call symbol receiver args).pruned.leaves =
      (shownOperands symbol receiver args).flatMap fun e => e.pruned.leaves := by
  have hargs : leavesAll (prunedAll args) = args.flatMap fun e => e.pruned.leaves := by
    rw [leavesAll_eq_flatMap, prunedAll_eq_map, List.flatMap_map]
  cases receiver with
  | none =>
    have hshown : shownOperands symbol none args = args := by
      unfold shownOperands
      split <;> rfl
    rw [pruned, leaves, hargs, hshown]
  | some r =>
    rw [pruned, shownOperands]
    split
    · rw [leaves, hargs]
    · rw [leaves, hargs]
      rfl

mutual

/-- A receiver that has no place in the text of a filter does not change the text. -/
theorem render_pruned : (e : Expr) → e.pruned.render = e.render
  | .ident _ | .const _ => rfl
  | .list items => by
    rw [pruned, render, render, renderAll_eq_map, renderAll_eq_map, render_prunedAll items]
  | .call symbol none args => by
    rw [pruned, render_call, render_call, render_prunedAll args]
  | .call symbol (some receiver) args => by
    rw [pruned]
    split
    next h =>
      rw [render_of_isOperation h (some receiver), render_call, render_call, render_prunedAll args]
    · rw [render_call, render_call, render_prunedAll args, Option.map_some, render_pruned receiver, Option.map_some]

/-- Pruning changes no text of several expressions. -/
theorem render_prunedAll : (es : List Expr) → (prunedAll es).map render = es.map render
  | [] => rfl
  | e :: es => by rw [prunedAll, List.map_cons, render_pruned e, render_prunedAll es, List.map_cons]

end

/-- A text that shows some expressions shows the leaves that each of them shows. -/
theorem shows_flatMap {text : String} {es : List Expr} (h : Shows text (es.map render))
    (hes : List.Forall₂ Shows (es.map render) (es.map fun e => e.pruned.leaves.map render)) :
    Shows text ((es.flatMap fun e => e.pruned.leaves).map render) := by
  rw [List.map_flatMap, List.flatMap_def]
  exact h.trans hes

mutual

/-- The text of a filter shows all its leaves, but for those of receivers that have no place in it. -/
theorem shows_leaves : (e : Expr) → Shows e.render (e.pruned.leaves.map render)
  | .ident name => .self name
  | .const value => .self value.render
  | .list items => by
    have hleaves : (list items).pruned.leaves = items.flatMap fun e => e.pruned.leaves := by
      rw [pruned, leaves, leavesAll_eq_flatMap, prunedAll_eq_map, List.flatMap_map]
    rw [hleaves, render, renderAll_eq_map]
    exact shows_flatMap (((Shows.intercalate ", " _).behind "[").before "]") (shows_leavesAll items)
  | .call symbol none args => by
    rw [leaves_pruned_call]
    refine shows_flatMap (shows_call symbol none args) ?_
    unfold shownOperands
    split
    · exact shows_leavesAll args
    · exact shows_leavesAll args
  | .call symbol (some receiver) args => by
    rw [leaves_pruned_call]
    refine shows_flatMap (shows_call symbol (some receiver) args) ?_
    unfold shownOperands
    split
    · exact shows_leavesAll args
    · exact .cons (shows_leaves receiver) (shows_leavesAll args)

/-- Each of several expressions shows the leaves of what is left of it. -/
theorem shows_leavesAll : (es : List Expr) →
    List.Forall₂ Shows (es.map render) (es.map fun e => e.pruned.leaves.map render)
  | [] => .nil
  | e :: es => .cons (shows_leaves e) (shows_leavesAll es)

end

end Expr

/-- The text of a call shows its operands in their order, each at a place of its own, whatever the receiver is, exactly
if the call is no operation. An operation shows its arguments and nothing of its receiver, so that the text of a filter
is the text of what is left without such receivers. The report of a filter that is refused shows all identifiers and
constants of what is left. -/
theorem receivers_without_a_place_are_not_shown (symbol : String) (args : List Expr) :
    ((∀ receiver, Shows (Expr.call symbol receiver args).render ((operands receiver args).map Expr.render)) ↔
      Expr.isOperation symbol args.length = false) ∧
    (∀ receiver, Shows (Expr.call symbol receiver args).render
      ((Expr.shownOperands symbol receiver args).map Expr.render)) ∧
    (∀ e : Expr, e.pruned.render = e.render) ∧
    ∀ (c : Compiler) (e : Expr) (why : Rejection),
      Shows (c.event e (.error why)).message (e.pruned.leaves.map Expr.render) := by
  refine ⟨Expr.shows_operands_iff, fun receiver => Expr.shows_call symbol receiver args, Expr.render_pruned, ?_⟩
  intro c e why
  exact (((Expr.shows_leaves e).behind _).before "`: ").before why.message

/-- A receiver of `&&` with two arguments is not shown, though the filter is refused because of it. -/
theorem receiver_of_operation_is_lost :
    let e : Expr := .call "&&" (some (.ident "a")) [.ident "b", .ident "c"]
    let c : Compiler := ⟨memoCatalog, .mySql, 1⟩
    e.render = "(b && c)" ∧ ¬ Shows e.render ["a", "b", "c"] ∧
      Compiler.compile c e = .error (.arityMismatch .and 1 2) ∧
      (c.event e (Compiler.compile c e)).message = "Rejected memo filter `(b && c)`: " ++
        "Invalid number of arguments for &&: expected 1, got 2" := by
  intro e c
  have hr : e.render = "(b && c)" := by decide +kernel
  refine ⟨hr, fun h => ?_, by decide +kernel, by decide +kernel⟩
  rw [hr] at h
  have ha := (h.isInfix_of_mem List.mem_cons_self).subset (List.mem_singleton_self 'a')
  revert ha
  decide +kernel

end WhereClause
