import WhereClause.Proofs.Composition
import WhereClause.Proofs.Placeholders

/-!
# Starting from another index

The start index of a filter matters to its numbered placeholders only. Compiled from another index, a filter is refused
for the same reason or has the same text with the number behind each `$` replaced (`start_shifts_placeholders`). The
replacement (`renumber`) acts on the flat text, where a number ends at the first character that is no digit; it goes
through texts that are put together as long as none of them begins with a digit (`renumber_append`).
-/

namespace WhereClause

/-- The digits of a number, replaced by those of another; no digits stay none. -/
def renumberDigits (f : Nat → Nat) : List Char → List Char
  | [] => []
  | c :: cs => (toString (f (Nat.ofDigitChars 10 (c :: cs) 0))).toList

/-- A text in which the number behind each `$` is replaced. All else stays as it is. -/
def renumber (f : Nat → Nat) : List Char → List Char
  | [] => []
  | c :: cs =>
    if c = '$' then '$' :: (renumberDigits f (cs.takeWhile Char.isDigit) ++ renumber f (cs.dropWhile Char.isDigit))
    else c :: renumber f cs
termination_by cs => cs.length
decreasing_by
  · exact Nat.lt_succ_of_le (List.dropWhile_suffix Char.isDigit).length_le
  · exact Nat.lt_succ_self _

/-- Compiles filters one after the other, each from the index that the one before it leaves. -/
def Compiler.compileEach (d : Dialect) (s : UInt64) : List (Entity × Expr) → Except Rejection (List Clause)
  | [] => .ok []
  | (entity, e) :: es => do
    let a ← compile ⟨entity.catalog, d, s⟩ e
    let as ← compileEach d a.next es
    return a :: as

/-! ## Renumbering a text -/

/-- The digits behind a dollar sign are renumbered. -/
theorem renumber_dollar (f : Nat → Nat) (cs : List Char) :
    renumber f ('$' :: cs) =
      '$' :: (renumberDigits f (cs.takeWhile Char.isDigit) ++ renumber f (cs.dropWhile Char.isDigit)) := by
  rw [renumber, if_pos rfl]

/-- Any other character stays. -/
theorem renumber_cons {c : Char} (h : c ≠ '$') (f : Nat → Nat) (cs : List Char) :
    renumber f (c :: cs) = c :: renumber f cs := by
  rw [renumber, if_neg h]

/-- Two texts are renumbered on their own, unless the second one begins with a digit. -/
theorem renumber_append (f : Nat → Nat) {a b : List Char} (hb : ∀ c ∈ b.head?, c.isDigit = false) :
    renumber f (a ++ b) = renumber f a ++ renumber f b := by
  fun_induction renumber f a with
  | case1 => rfl
  | case2 cs ih =>
    rw [List.cons_append, renumber_dollar, takeWhile_isDigit_append hb, dropWhile_isDigit_append hb, ih,
      List.cons_append, List.append_assoc]
  | case3 c cs hc ih => rw [List.cons_append, renumber_cons hc, ih, List.cons_append]

/-- A text without a `$` stays as it is. -/
theorem renumber_eq_self (f : Nat → Nat) {cs : List Char} (h : '$' ∉ cs) : renumber f cs = cs := by
  induction cs with
  | nil => simp [renumber]
  | cons c cs ih =>
    rw [List.mem_cons, not_or] at h
    rw [renumber_cons (Ne.symm h.1), ih h.2]

/-- A numbered placeholder is renumbered as a whole. -/
theorem renumber_placeholder {f : Nat → Nat} {i j : UInt64} (h : f i.toNat = j.toNat) :
    renumber f (Dialect.postgres.placeholder i).toList = (Dialect.postgres.placeholder j).toList := by
  rw [toList_placeholder i]
  generalize i.toNat = n at h
  have hdrop : (Nat.toDigits 10 n).dropWhile Char.isDigit = [] :=
    List.dropWhile_eq_nil_iff.mpr isDigit_of_mem_digits
  have hnumber : renumberDigits f (Nat.toDigits 10 n) = (toString j.toNat).toList := by
    have hv : Nat.ofDigitChars 10 (Nat.toDigits 10 n) 0 = n := Nat.ofDigitChars_toDigits (by decide) (by decide)
    generalize hds : Nat.toDigits 10 n = ds at hv
    cases ds with
    | nil => exact absurd hds Nat.toDigits_ne_nil
    | cons c cs => rw [renumberDigits, hv, h]
  rw [renumber_dollar, List.takeWhile_eq_self_iff.mpr isDigit_of_mem_digits, hdrop, hnumber,
    renumber_eq_self f List.not_mem_nil, List.append_nil, toList_placeholder, Nat.toString_eq_repr, Nat.toList_repr]

/-! ## Two fragments that start differently -/

namespace Fragment

/-- Two fragments of a dialect hold the same values and the same text, up to where they start: every renumbering that
takes the index of each value in the first one to its index in the second one takes the first text to the second. -/
structure Shifted (d : Dialect) (s t : UInt64) (f g : Fragment) : Prop where
  dialect : f.dialect = d ∧ g.dialect = d
  start : f.start = s ∧ g.start = t
  args : g.args = f.args
  marks : d = .mySql → g.sql = f.sql
  numbers : d = .postgres → ∀ φ : Nat → Nat,
    (∀ i < f.args.length, φ (s + .ofNat i).toNat = (t + .ofNat i).toNat) → g.sql.toList = renumber φ f.sql.toList

namespace Shifted

variable {d : Dialect} {s t : UInt64} {f g : Fragment}

/-- Two new fragments differ in where they start. -/
theorem empty (d : Dialect) (s t : UInt64) : Shifted d (max s 1) (max t 1) (.empty d s) (.empty d t) :=
  ⟨⟨rfl, rfl⟩, ⟨rfl, rfl⟩, rfl, fun _ => rfl, fun _ φ _ => (renumber_eq_self φ List.not_mem_nil).symm⟩

/-- The same text behind both, which holds no placeholder. -/
theorem text (h : Shifted d s t f g) {word : String} (hw : Inert d word) : Shifted d s t (f.text word) (g.text word) := by
  refine ⟨h.dialect, h.start, h.args, fun hd => ?_, fun hd φ hφ => ?_⟩
  · rw [sql_text, sql_text, h.marks hd]
  · obtain ⟨hm, hh⟩ := hw.2 hd
    rw [sql_text, sql_text, String.toList_append, String.toList_append, renumber_append _ hh, renumber_eq_self _ hm.2,
      h.numbers hd φ hφ]

/-- A value that is bound in both fragments is renumbered like those before it. -/
theorem bind (h : Shifted d s t f g) (v : Value) : Shifted d s t (f.bind v) (g.bind v) := by
  refine ⟨h.dialect, h.start, ?_, fun hd => ?_, fun hd φ hφ => ?_⟩
  · rw [args_bind, args_bind, h.args]
  · rw [sql_bind, sql_bind, h.dialect.1, h.dialect.2, h.marks hd, hd]
    rfl
  · rw [args_bind, List.length_append, List.length_singleton] at hφ
    have hn : φ f.next.toNat = g.next.toNat := by
      rw [next, next, h.start.1, h.start.2, h.args]
      exact hφ _ (Nat.lt_succ_self _)
    rw [sql_bind, sql_bind, h.dialect.1, h.dialect.2, hd, String.toList_append, String.toList_append,
      renumber_append _ (isDigit_head_placeholder f.next), renumber_placeholder hn,
      h.numbers hd φ fun i hi => hφ i (Nat.lt_succ_of_lt hi)]

/-- A filter is appended to both fragments alike, or refused alike. -/
theorem convert (h : Shifted d s t f g) {c : Catalog} (hc : c.Plain) (e : Expr) :
    Shifted d s t (c.convert e f).1 (c.convert e g).1 ∧ (c.convert e f).2 = (c.convert e g).2 :=
  hc.convert_related dialect (fun hs _ _ h => h.text hs) (fun v _ _ h => h.bind v) e h

end Shifted

end Fragment

/-! ## Clauses -/

namespace Compiler

variable {c : Catalog} {d : Dialect} {s : UInt64} {e : Expr}

/-- A clause is what a fragment holds after the filter has been appended to an empty one. -/
theorem compile_eq_ok_iff {a : Clause} :
    compile ⟨c, d, s⟩ e = .ok a ↔ ∃ f, c.convert e (.empty d s) = (f, none) ∧ a = f.clause := by
  unfold compile
  generalize c.convert e (.empty d s) = w
  obtain ⟨f, _ | why⟩ := w
  · simp [Fragment.clause, eq_comm]
  · simp

/-- Compiled from two indices, a filter has the clauses of two fragments that differ in where they start. -/
theorem exists_shifted_of_compile (hc : c.Plain) {a : Clause} (h : compile ⟨c, d, s⟩ e = .ok a) (t : UInt64) :
    ∃ f g, Fragment.Shifted d (max s 1) (max t 1) f g ∧ a = f.clause ∧ compile ⟨c, d, t⟩ e = .ok g.clause := by
  obtain ⟨f, hf, rfl⟩ := compile_eq_ok_iff.mp h
  have shifted := (Fragment.Shifted.empty d s t).convert hc e
  rw [hf] at shifted
  obtain ⟨sh, hn⟩ := shifted
  exact ⟨f, _, sh, rfl, compile_eq_ok_iff.mpr ⟨_, Prod.ext rfl hn.symm, rfl⟩⟩

/-- The placeholders of a clause are those of its values, counted on from where it starts, as long as no index passes
the last one. -/
theorem aligned_of_compile (hc : c.Plain) {a : Clause} (h : compile ⟨c, d, s⟩ e = .ok a)
    (fits : max s.toNat 1 + a.args.length < 2 ^ 64) :
    a.next.toNat = max s.toNat 1 + a.args.length ∧
      (d = .mySql → a.sql.toList.count '?' = a.args.length) ∧
      (d = .postgres → dollarNumbers a.sql.toList = (List.range' (max s.toNat 1) a.args.length).map toString) := by
  obtain ⟨f, hf, rfl⟩ := compile_eq_ok_iff.mp h
  have al : Fragment.Aligned d (max s 1) f := by
    have := (Fragment.Aligned.empty d s).convert hc e
    rwa [hf] at this
  rw [← toNat_max_one] at fits ⊢
  refine ⟨?_, al.marks, fun hd => (al.numbers hd).trans (map_toString_indices (Nat.le_of_lt fits))⟩
  show f.next.toNat = _
  rw [Fragment.next, al.start_eq]
  exact toNat_add_ofNat fits

/-- Filters that are compiled one after the other number their values on, without a gap between two of them. -/
theorem numbers_of_compileEach {es : List (Entity × Expr)} {as : List Clause} (h : compileEach .postgres s es = .ok as)
    (fits : max s.toNat 1 + (as.flatMap Clause.args).length < 2 ^ 64) :
    as.flatMap (fun a => dollarNumbers a.sql.toList) =
      (List.range' (max s.toNat 1) (as.flatMap Clause.args).length).map toString := by
  induction es generalizing s as with
  | nil =>
    obtain rfl := Except.ok.inj h
    rfl
  | cons x es ih =>
    obtain ⟨entity, e⟩ := x
    obtain ⟨a, ha, h⟩ := bind_eq_ok_iff.mp h
    obtain ⟨bs, hbs, h⟩ := bind_eq_ok_iff.mp h
    obtain rfl := Except.ok.inj h
    rw [List.flatMap_cons, List.length_append] at fits
    obtain ⟨hn, -, hd⟩ := aligned_of_compile entity.plain_catalog ha (by omega)
    have hmax : max a.next.toNat 1 = max s.toNat 1 + a.args.length := by omega
    rw [List.flatMap_cons, List.flatMap_cons, hd rfl, ih hbs (by omega), hmax, ← List.map_append, List.range'_append_1,
      List.length_append]

/-- Each of several filters that are compiled one after the other counts on from the values of those before it. -/
theorem aligned_of_compileEach {es : List (Entity × Expr)} {as bs : List Clause} {a : Clause}
    (h : compileEach d s es = .ok (as ++ a :: bs))
    (fits : max s.toNat 1 + ((as ++ a :: bs).flatMap Clause.args).length < 2 ^ 64) :
    a.next.toNat = max s.toNat 1 + (as.flatMap Clause.args).length + a.args.length ∧
      (d = .mySql → a.sql.toList.count '?' = a.args.length) ∧
      (d = .postgres → dollarNumbers a.sql.toList =
        (List.range' (max s.toNat 1 + (as.flatMap Clause.args).length) a.args.length).map toString) := by
  induction es generalizing s as with
  | nil => simp [compileEach] at h
  | cons x es ih =>
    obtain ⟨entity, e⟩ := x
    obtain ⟨b, hb, h⟩ := bind_eq_ok_iff.mp h
    obtain ⟨cs, hcs, h⟩ := bind_eq_ok_iff.mp h
    have h := Except.ok.inj h
    rw [← h, List.flatMap_cons, List.length_append] at fits
    have al := aligned_of_compile entity.plain_catalog hb (by omega)
    cases as with
    | nil =>
      obtain ⟨rfl, rfl⟩ := List.cons.inj h
      exact al
    | cons b' as =>
      obtain ⟨rfl, rfl⟩ := List.cons.inj h
      have fits : max s.toNat 1 + (b.args.length + ((as ++ a :: bs).flatMap Clause.args).length) < 2 ^ 64 := fits
      have hmax : max b.next.toNat 1 = max s.toNat 1 + b.args.length := by omega
      have := ih hcs (by omega)
      rw [hmax] at this
      rw [List.flatMap_cons, List.length_append, ← Nat.add_assoc]
      exact this

end Compiler

/-- Compiled from another index, a filter is refused for the same reason, or binds the same values; its text is the
same in MySQL, and in PostgreSQL differs in the numbers behind `$` alone, which are shifted as the start is. So filters
that are compiled one after the other, each from the index that the one before it leaves, number the values of all of
them on from the first index, and each of them uses the indices of its own values. Indices are spoken of as numbers
where none of them passes the last one. -/
theorem start_shifts_placeholders (entity : Entity) (d : Dialect) (s t : UInt64) (e : Expr) :
    (∀ why, Compiler.compile ⟨entity.catalog, d, s⟩ e = .error why ↔
      Compiler.compile ⟨entity.catalog, d, t⟩ e = .error why) ∧
    (∀ a, Compiler.compile ⟨entity.catalog, d, s⟩ e = .ok a →
      ∃ b, Compiler.compile ⟨entity.catalog, d, t⟩ e = .ok b ∧ b.args = a.args ∧ (d = .mySql → b.sql = a.sql) ∧
        (max s.toNat 1 + a.args.length < 2 ^ 64 → max t.toNat 1 + a.args.length < 2 ^ 64 →
          a.next.toNat = max s.toNat 1 + a.args.length ∧ b.next.toNat = max t.toNat 1 + a.args.length ∧
          (d = .postgres →
            b.sql.toList = renumber (fun n => n - max s.toNat 1 + max t.toNat 1) a.sql.toList))) ∧
    (∀ es as, Compiler.compileEach d s es = .ok as → max s.toNat 1 + (as.flatMap Clause.args).length < 2 ^ 64 →
      (d = .postgres → as.flatMap (fun a => dollarNumbers a.sql.toList) =
        (List.range' (max s.toNat 1) (as.flatMap Clause.args).length).map toString) ∧
      ∀ before a after, as = before ++ a :: after →
        a.next.toNat = max s.toNat 1 + (before.flatMap Clause.args).length + a.args.length ∧
          (d = .mySql → a.sql.toList.count '?' = a.args.length) ∧
          (d = .postgres → dollarNumbers a.sql.toList =
            (List.range' (max s.toNat 1 + (before.flatMap Clause.args).length) a.args.length).map toString)) := by
  refine ⟨fun why => ?_, fun a ha => ?_, fun es as h fits => ⟨fun hd => ?_, fun before a after has => ?_⟩⟩
  · rw [Compiler.compile_error_iff, Compiler.compile_error_iff]
  · obtain ⟨f, g, sh, rfl, hb⟩ := Compiler.exists_shifted_of_compile entity.plain_catalog ha t
    have hargs : g.clause.args = f.clause.args := sh.args
    refine ⟨_, hb, hargs, sh.marks, fun hs ht => ⟨?_, ?_, fun hd => sh.numbers hd _ fun i hi => ?_⟩⟩
    · exact (Compiler.aligned_of_compile entity.plain_catalog ha hs).1
    · rw [← hargs] at ht ⊢
      exact (Compiler.aligned_of_compile entity.plain_catalog hb ht).1
    · -- Both indices are below the last one, so they are the starts and the place of the value added up.
      have hi : i < f.clause.args.length := hi
      rw [← toNat_max_one] at hs ht ⊢
      rw [← toNat_max_one, toNat_add_ofNat (by omega), toNat_add_ofNat (by omega)]
      omega
  · subst hd
    exact Compiler.numbers_of_compileEach h fits
  · subst has
    exact Compiler.aligned_of_compileEach h fits

/-- Two values whose indices gain a digit when the filter starts at 99 rather than at 9, a filter that is refused at
either, and two filters of which the second starts where the first one ends. -/
theorem start_shifts_placeholders_digits :
    let seen : Expr := .isIn (.ident "visibility") (.list [.string "PUBLIC", .string "PRIVATE"])
    let mine : Expr := .not (.eq (.ident "creator_id") (.int 7))
    let a : Clause := ⟨"memo.visibility IN ($9,$10)", [.string "PUBLIC", .string "PRIVATE"], 11⟩
    let b : Clause := ⟨"NOT (memo.creator_id = $11)", [.int 7], 12⟩
    Compiler.compile ⟨memoCatalog, .postgres, 9⟩ seen = .ok a ∧
      max (9 : UInt64).toNat 1 + a.args.length < 2 ^ 64 ∧ max (99 : UInt64).toNat 1 + a.args.length < 2 ^ 64 ∧
      (∃ a' : Clause, Compiler.compile ⟨memoCatalog, .postgres, 99⟩ seen = .ok a' ∧ a'.args = a.args ∧
        a'.next.toNat = 101 ∧ a'.sql.toList = renumber (fun n => n - 9 + 99) a.sql.toList) ∧
      renumber (fun n => n - 9 + 99) a.sql.toList = "memo.visibility IN ($99,$100)".toList ∧
      Compiler.compile ⟨memoCatalog, .postgres, 99⟩ (.ident "color") = .error (.unknownIdentifier "color") ∧
      Compiler.compileEach .postgres 9 [(.memo, seen), (.memo, mine)] = .ok [a, b] ∧
      max (9 : UInt64).toNat 1 + ([a, b].flatMap Clause.args).length < 2 ^ 64 ∧
      dollarNumbers a.sql.toList ++ dollarNumbers b.sql.toList = ["9", "10", "11"] ∧
      b.next.toNat = 9 + 2 + 1 ∧ dollarNumbers b.sql.toList = ["11"] := by
  intro seen mine a b
  have ha : Compiler.compile ⟨memoCatalog, .postgres, 9⟩ seen = .ok a := by decide +kernel
  have hab : Compiler.compileEach .postgres 9 [(.memo, seen), (.memo, mine)] = .ok [a, b] := by decide +kernel
  have hc : Compiler.compile ⟨memoCatalog, .postgres, 9⟩ (.ident "color") = .error (.unknownIdentifier "color") := by
    decide +kernel
  have fits9 : max (9 : UInt64).toNat 1 + a.args.length < 2 ^ 64 := by decide
  have fits99 : max (99 : UInt64).toNat 1 + a.args.length < 2 ^ 64 := by decide
  have fits : max (9 : UInt64).toNat 1 + ([a, b].flatMap Clause.args).length < 2 ^ 64 := by decide
  obtain ⟨-, moved, chained⟩ := start_shifts_placeholders .memo .postgres 9 99 seen
  obtain ⟨a', ha', hargs, -, numbered⟩ := moved a ha
  obtain ⟨-, hnext, hsql⟩ := numbered fits9 fits99
  obtain ⟨all, each⟩ := chained _ _ hab fits
  obtain ⟨hb, -, hnb⟩ := each [a] b [] rfl
  refine ⟨ha, fits9, fits99, ⟨a', ha', hargs, hnext, hsql rfl⟩, ?_, ?_, hab, fits, ?_, hb, (hnb rfl).trans (by decide +kernel)⟩
  · decide +kernel
  · exact ((start_shifts_placeholders .memo .postgres 9 99 (.ident "color")).1 _).mp hc
  · have numbers := all rfl
    rw [List.flatMap_cons, List.flatMap_cons, List.flatMap_nil, List.append_nil] at numbers
    exact numbers.trans (by decide +kernel)

end WhereClause
